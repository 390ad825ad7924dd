import DialogueSync.Proofs.Tree.Ancestry

/-!
# Cutting circles

Going through the messages and cutting those that lie on a circle takes away nothing but links of messages
on circles (`isCutOf_cutCycles`), leaves no circle (`not_circular_cutCycles`), and so changes nothing where
there is none (`cutCycles_eq_self`).
-/

namespace DialogueSync.Tree

/-- Messages that come from others by cutting some that lie on circles. -/
def IsCutOf (cut ms : IdMap Message) : Prop :=
  ∀ id : String, cut[id]? = ms[id]? ∨
    Circular (parentIn ms) id ∧ cut[id]? = ms[id]?.map fun m => { m with parent := none }

lemma IsCutOf.refl (ms : IdMap Message) : IsCutOf ms ms :=
  fun _ => Or.inl rfl

/-- Cutting takes links away and adds none. -/
lemma IsCutOf.parentIn_eq {cut ms : IdMap Message} (h : IsCutOf cut ms) {id parent : String}
    (hp : parentIn cut id = some parent) : parentIn ms id = some parent := by
  unfold parentIn at hp ⊢
  rcases h id with heq | ⟨-, heq⟩
  · rw [← heq, hp]
  · rw [heq] at hp
    cases hm : ms[id]? <;> simp [hm] at hp

/-- Parents may be cut in several rounds. -/
lemma IsCutOf.trans {cut' cut ms : IdMap Message} (h' : IsCutOf cut' cut) (h : IsCutOf cut ms) :
    IsCutOf cut' ms := by
  intro id
  rcases h' id with heq' | ⟨hc', heq'⟩
  · rw [heq']
    exact h id
  · refine Or.inr ⟨hc'.mono fun _ _ => h.parentIn_eq, ?_⟩
    rcases h id with heq | ⟨-, heq⟩
    · rw [heq', heq]
    · rw [heq', heq, Option.map_map]
      rfl

/-- Cutting at a message takes away its own link, and only if it lies on a circle. -/
lemma isCutOf_cutAt (ms : IdMap Message) (id : String) : IsCutOf (cutAt ms id) ms := by
  intro x
  unfold cutAt
  split
  next hc =>
    rw [Std.ExtTreeMap.getElem?_modify]
    split
    next hx =>
      obtain rfl := Std.LawfulEqOrd.eq_of_compare hx
      exact Or.inr ⟨isOnCycle_iff.mp hc, rfl⟩
    next => exact Or.inl rfl
  next => exact Or.inl rfl

/-- A message at which was cut is on no circle any more. -/
lemma not_circular_cutAt (ms : IdMap Message) (id : String) :
    ¬ Circular (parentIn (cutAt ms id)) id := by
  unfold cutAt
  split
  next =>
    refine not_circular_of_link_eq_none ?_
    rw [parentIn, Std.ExtTreeMap.getElem?_modify_self]
    cases ms[id]? <;> rfl
  next hc => exact fun hcirc => hc (isOnCycle_iff.mpr hcirc)

/-- Cutting at several messages takes away nothing but links on circles. -/
lemma isCutOf_foldl_cutAt (ids : List String) (ms : IdMap Message) :
    IsCutOf (ids.foldl cutAt ms) ms := by
  induction ids generalizing ms with
  | nil => exact IsCutOf.refl ms
  | cons id rest ih => exact (ih (cutAt ms id)).trans (isCutOf_cutAt ms id)

/-- None of the messages at which was cut is on a circle any more. -/
lemma not_circular_foldl_cutAt {ids : List String} {id : String} (hid : id ∈ ids)
    (ms : IdMap Message) : ¬ Circular (parentIn (ids.foldl cutAt ms)) id := by
  induction ids generalizing ms with
  | nil => cases hid
  | cons first rest ih =>
    rcases List.mem_cons.mp hid with rfl | hid
    · -- Later cuts close no circle.
      refine fun hc => not_circular_cutAt ms id (hc.mono fun _ _ => ?_)
      exact (isCutOf_foldl_cutAt rest _).parentIn_eq
    · exact ih hid _

/-- Cutting the circles takes away nothing but links of messages that lie on one. -/
lemma isCutOf_cutCycles (ms : IdMap Message) : IsCutOf (cutCycles ms) ms :=
  isCutOf_foldl_cutAt _ _

/-- After cutting the circles there is none. -/
lemma not_circular_cutCycles (ms : IdMap Message) (id : String) :
    ¬ Circular (parentIn (cutCycles ms)) id := by
  by_cases hid : id ∈ ms.keys
  · exact not_circular_foldl_cutAt hid ms
  · refine not_circular_of_link_eq_none (Option.eq_none_iff_forall_ne_some.mpr fun parent hp => hid ?_)
    exact Std.ExtTreeMap.mem_keys.mpr (mem_of_parentIn_eq ((isCutOf_cutCycles ms).parentIn_eq hp))

/-- Where there is no circle, cutting changes nothing. -/
lemma cutCycles_eq_self {ms : IdMap Message} (h : ∀ id, ¬ Circular (parentIn ms) id) :
    cutCycles ms = ms := by
  refine Std.ExtTreeMap.ext_getElem? fun {id} => ?_
  rcases isCutOf_cutCycles ms id with heq | ⟨hc, -⟩
  · exact heq
  · exact absurd hc (h id)

end DialogueSync.Tree
