import DialogueSync.Proofs.Bodies
import DialogueSync.Proofs.Tree.Reachable
import Mathlib.Data.List.Pairwise
import Mathlib.Data.List.Sort

/-!
# The order of siblings

Two linked trees with the same parent links have the same lists of children exactly if they put siblings in
the same order (`children_eq_iff`). Where the positions agree too, the order can differ only between
siblings at one position, and there it is the order in which they were created (`compare_rank_lt_iff`).
-/

namespace DialogueSync

/-- Whether a message was created before another one; of two created at the same time the id decides. -/
def Message.CreatedBefore (m n : Message) : Prop :=
  m.createdAt < n.createdAt ∨ m.createdAt = n.createdAt ∧ compare m.id n.id = .lt

instance (m n : Message) : Decidable (m.CreatedBefore n) :=
  inferInstanceAs (Decidable (_ ∨ _))

/-- The position decides which of two messages comes first, and their creation if the position is the
same. -/
lemma Message.compare_rank_lt_iff {m n : Message} :
    compare m.rank n.rank = .lt ↔
      compare m.position n.position = .lt ∨ m.position = n.position ∧ m.CreatedBefore n := by
  have hcompare : compare m.rank n.rank = (compare m.position n.position).then
      ((compare m.createdAt n.createdAt).then (compare m.id n.id)) := rfl
  rw [hcompare, Ordering.then_eq_lt, Ordering.then_eq_lt, Std.compare_eq_iff_eq,
    Std.compare_eq_iff_eq, Std.compare_eq_lt (a := m.createdAt), CreatedBefore]

namespace Tree

variable {t t' : Tree}

/-! ### Order among siblings -/

/-- Of two siblings only one comes before the other. -/
lemma not_before_of_before {a b : String} (h : t.Before a b) : ¬ t.Before b a := by
  rintro ⟨n, m, hn, hm, hgt⟩
  obtain ⟨m', n', hm', hn', hlt⟩ := h
  obtain rfl := Option.some.inj (hm.symm.trans hm')
  obtain rfl := Option.some.inj (hn.symm.trans hn')
  exact Std.OrientedCmp.not_lt_of_lt hlt hgt

/-- The two trees put siblings in the same order. -/
def OrderedAlike (t t' : Tree) : Prop :=
  ∀ parent a b, t.contains parent → parentIn t.messages a = some parent →
    parentIn t.messages b = some parent → t.Before a b → t'.Before a b

/-- What stands in one list of children in the order of two trees is ordered alike by these. -/
lemma before_of_pairwise {l : List String} (hl : l.Pairwise t.Before) (hl' : l.Pairwise t'.Before)
    {a b : String} (ha : a ∈ l) (hb : b ∈ l) (h : t.Before a b) : t'.Before a b := by
  -- Either both trees put the first message first, or both put it last.
  let Alike : String → String → Prop := fun x y =>
    t.Before x y ∧ t'.Before x y ∨ t.Before y x ∧ t'.Before y x
  have hsymm : Std.Symm Alike := ⟨fun x y hxy => hxy.symm⟩
  have halike : l.Pairwise Alike := hl.imp₂ (fun x y hxy hxy' => Or.inl ⟨hxy, hxy'⟩) hl'
  have hne : a ≠ b := by
    rintro rfl
    exact not_before_self t a h
  rcases halike.forall ha hb hne with ⟨-, h'⟩ | ⟨hback, -⟩
  · exact h'
  · exact absurd hback (not_before_of_before h)

/-- Nothing comes twice in a list in sibling order. -/
lemma nodup_of_pairwise_before {l : List String} (hl : l.Pairwise t.Before) : l.Nodup := by
  refine hl.imp ?_
  rintro a b hab rfl
  exact not_before_self t a hab

/-- Lists in sibling order are equal if they have the same members. -/
lemma eq_of_pairwise_before {l l' : List String} (hl : l.Pairwise t.Before) (hl' : l'.Pairwise t.Before)
    (hmem : ∀ id, id ∈ l ↔ id ∈ l') : l = l' := by
  have hirrefl : Std.Irrefl t.Before := ⟨not_before_self t⟩
  have hantisymm : Std.Antisymm t.Before := ⟨fun a b hab hba => absurd hba (not_before_of_before hab)⟩
  exact hl.eq_of_mem_iff hl' hmem

/-- Two linked trees with the same parent links have the same lists of children exactly if they put
siblings in the same order. -/
lemma children_eq_iff (ht : Linked t.messages) (ht' : Linked t'.messages)
    (hids : ∀ id, t.contains id ↔ t'.contains id)
    (hparent : parentIn t.messages = parentIn t'.messages) :
    (∀ id, (t.get? id).map Message.children = (t'.get? id).map Message.children) ↔
      OrderedAlike t t' := by
  constructor
  · intro hchildren parent a b hp ha hb hab
    obtain ⟨m, hm⟩ := contains_iff_exists_get?.mp hp
    obtain ⟨m', hm'⟩ := contains_iff_exists_get?.mp ((hids parent).mp hp)
    have heq : m.children = m'.children := by
      have h := hchildren parent
      rw [hm, hm'] at h
      exact Option.some.inj h
    have hl' : m.children.Pairwise t'.Before := heq ▸ ht'.pairwise_children hm'
    refine before_of_pairwise (ht.pairwise_children hm) hl' ?_ ?_ hab
    · rwa [ht.children_eq parent m hm, mem_childrenIn_iff ht.keyed]
    · rwa [ht.children_eq parent m hm, mem_childrenIn_iff ht.keyed]
  · intro halike id
    cases hm : t.get? id with
    | none =>
      cases hm' : t'.get? id with
      | none => rfl
      | some m' =>
        obtain ⟨m, hm⟩ := contains_iff_exists_get?.mp
          ((hids id).mpr (contains_iff_exists_get?.mpr ⟨m', hm'⟩))
        simp_all
    | some m =>
      have hid : t.contains id := contains_iff_exists_get?.mpr ⟨m, hm⟩
      obtain ⟨m', hm'⟩ := contains_iff_exists_get?.mp ((hids id).mp hid)
      have hmem : ∀ child, child ∈ m.children ↔ child ∈ m'.children := by
        intro child
        rw [ht.children_eq id m hm, mem_childrenIn_iff ht.keyed, ht'.children_eq id m' hm',
          mem_childrenIn_iff ht'.keyed, hparent]
      -- The first list stands in the order of the second tree too.
      have hl : m.children.Pairwise t'.Before := by
        refine (ht.pairwise_children hm).imp_of_mem fun {a b} ha hb hab => ?_
        rw [ht.children_eq id m hm, mem_childrenIn_iff ht.keyed] at ha hb
        exact halike id a b hid ha hb hab
      rw [hm', Option.map_some, Option.map_some,
        eq_of_pairwise_before hl (ht'.pairwise_children hm') hmem]

/-! ### Order at one position -/

/-- Siblings at one position are created in the order of another tree. -/
def CreatedAlike (t t' : Tree) : Prop :=
  ∀ m ∈ t'.messages.values, ∀ n ∈ t'.messages.values, m.parent.any t'.contains →
    m.parent = n.parent → m.position = n.position → m.CreatedBefore n →
      ∀ m' ∈ t.get? m.id, ∀ n' ∈ t.get? n.id, m'.CreatedBefore n'

instance (t t' : Tree) : Decidable (CreatedAlike t t') :=
  inferInstanceAs (Decidable (∀ m ∈ t'.messages.values, ∀ n ∈ t'.messages.values, _))

/-- A message of the tree is found under its id. -/
lemma Linked.get?_of_mem_values (ht : Linked t.messages) {m : Message} (hm : m ∈ t.messages.values) :
    t.get? m.id = some m := by
  obtain ⟨id, hid⟩ := mem_values_iff.mp hm
  rw [ht.keyed id m hid]
  exact hid

/-- The parent links agree if the messages do. -/
lemma parentIn_eq_of_get? (hids : ∀ id, t.contains id ↔ t'.contains id)
    (hparent : ∀ id m m', t.get? id = some m → t'.get? id = some m' → m.parent = m'.parent) :
    parentIn t.messages = parentIn t'.messages := by
  funext id
  cases hm : t.get? id with
  | none =>
    have hid : id ∉ t'.messages := fun h => by
      obtain ⟨m, hm'⟩ := contains_iff_exists_get?.mp ((hids id).mpr h)
      cases hm.symm.trans hm'
    rw [parentIn, parentIn, show t.messages[id]? = none from hm,
      Std.ExtTreeMap.getElem?_eq_none hid]
  | some m =>
    obtain ⟨m', hm'⟩ := contains_iff_exists_get?.mp
      ((hids id).mp (contains_iff_exists_get?.mpr ⟨m, hm⟩))
    rw [parentIn_of_get? hm, parentIn_of_get? hm', hparent id m m' hm hm']

/-- Two linked trees that have the same messages, with the same parents and at the same positions, have the
same lists of children exactly if siblings at one position are created in the same order in both. -/
lemma children_eq_iff_createdAlike (ht : Linked t.messages) (ht' : Linked t'.messages)
    (hids : ∀ id, t.contains id ↔ t'.contains id)
    (hplace : ∀ id m m', t.get? id = some m → t'.get? id = some m' →
      m.parent = m'.parent ∧ m.position = m'.position) :
    (∀ id, (t.get? id).map Message.children = (t'.get? id).map Message.children) ↔
      CreatedAlike t t' := by
  have hparent := parentIn_eq_of_get? hids fun id m m' hm hm' => (hplace id m m' hm hm').1
  rw [forall_congr' fun id => eq_comm,
    children_eq_iff ht' ht (fun id => (hids id).symm) hparent.symm]
  -- Siblings at one position are told apart by their creation, and then by their ids, which are the same in both.
  constructor
  · intro halike m' hm' n' hn' hin hp hpos hcreated m hm n hn
    obtain ⟨parent, hparent', hcontains⟩ := (Option.any_eq_true _ _).mp hin
    have hget : t'.get? m'.id = some m' := ht'.get?_of_mem_values hm'
    have hget' : t'.get? n'.id = some n' := ht'.get?_of_mem_values hn'
    have hbefore : t'.Before m'.id n'.id :=
      ⟨m', n', hget, hget', Message.compare_rank_lt_iff.mpr (Or.inr ⟨hpos, hcreated⟩)⟩
    obtain ⟨x, y, hx, hy, hlt⟩ := halike parent m'.id n'.id hcontains
      ((parentIn_of_get? hget).trans hparent')
      ((parentIn_of_get? hget').trans (hp.symm.trans hparent')) hbefore
    obtain rfl := Option.some.inj (hx.symm.trans hm)
    obtain rfl := Option.some.inj (hy.symm.trans hn)
    have hpos' : x.position = y.position := by
      rw [(hplace _ x m' hm hget).2, hpos, (hplace _ y n' hn hget').2]
    rcases Message.compare_rank_lt_iff.mp hlt with hlt | ⟨-, hcreated⟩
    · rw [hpos', Std.compare_eq_iff_eq.mpr rfl] at hlt
      cases hlt
    · exact hcreated
  · rintro hcreated parent a b hp ha hb ⟨m', n', hm', hn', hlt⟩
    obtain ⟨m, hm⟩ := contains_iff_exists_get?.mp
      ((hids a).mpr (contains_iff_exists_get?.mpr ⟨m', hm'⟩))
    obtain ⟨n, hn⟩ := contains_iff_exists_get?.mp
      ((hids b).mpr (contains_iff_exists_get?.mpr ⟨n', hn'⟩))
    rw [parentIn_of_get? hm'] at ha
    rw [parentIn_of_get? hn'] at hb
    refine ⟨m, n, hm, hn, Message.compare_rank_lt_iff.mpr ?_⟩
    rw [(hplace a m m' hm hm').2, (hplace b n n' hn hn').2]
    rcases Message.compare_rank_lt_iff.mp hlt with hlt | ⟨hpos, hbefore⟩
    · exact Or.inl hlt
    · have hin : m'.parent.any t'.contains := (Option.any_eq_true _ _).mpr ⟨parent, ha, hp⟩
      have hid : m'.id = a := ht'.keyed a m' hm'
      have hid' : n'.id = b := ht'.keyed b n' hn'
      refine Or.inr ⟨hpos, hcreated m' (mem_values_iff.mpr ⟨a, hm'⟩) n' (mem_values_iff.mpr ⟨b, hn'⟩)
        hin (ha.trans hb.symm) hpos hbefore m ?_ n ?_⟩
      · exact hid ▸ hm
      · exact hid' ▸ hn

end Tree

end DialogueSync
