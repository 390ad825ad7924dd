import DialogueSync.Proofs.Client.Refusal
import DialogueSync.Proofs.Client.Unlimited
import DialogueSync.Proofs.Tree.Attaching

/-!
# Links in the cache

When a message is attached, the lists of children change at its old and its new parent and nowhere else
(`Tree.get?_insert_of_uninvolved`). The new parent and the message are written to the cache again. The old parent is
not, so that a message which moves away from a parent that is cached leaves a record behind whose list of children
still has it (`cachesLinks_attach_iff`).
-/

namespace DialogueSync

open DialogueSync.Tree (Linked childrenIn climb_one mem_childrenIn_iff parentIn)

/-! ### What attaching changes in the tree -/

namespace Tree

variable {t t' : Tree} {parent : Option String} {m : Message} {x : String}

/-- Attaching a message changes no other message but its old and its new parent. -/
lemma get?_insert_of_uninvolved (h : Linked t.messages) (hinsert : t.insert parent m = .ok t') (hid : x ≠ m.id)
    (hprevious : parentIn t.messages m.id ≠ some x) (hparent : parent.filter t.contains ≠ some x) :
    t'.get? x = t.get? x := by
  rw [get?_insert h hinsert, if_neg hid]
  cases hold : t.get? x with
  | none => rfl
  | some old =>
    have hlinked := linkedAt_insert (m := t.hung parent m) (h.children_eq x) hid hprevious hparent
    have hchildren : old.children = childrenIn (t.messages.insert m.id (t.hung parent m)) x := by
      have hne : compare (t.hung parent m).id x ≠ .eq := fun heq => hid (Std.compare_eq_iff_eq.mp heq).symm
      refine hlinked old ?_
      rw [Std.ExtTreeMap.getElem?_insert, if_neg hne]
      exact hold
    rw [Option.map_some, ← hchildren]

/-- A message that moves away from its parent is no longer among the children of that one. -/
lemma children_ne_of_moved (h : Linked t.messages) (hinsert : t.insert parent m = .ok t')
    (hprevious : parentIn t.messages m.id = some x) (hmoved : parent.filter t.contains ≠ some x)
    {old new : Message} (hold : t.get? x = some old) (hnew : t'.get? x = some new) :
    old.children ≠ new.children := by
  intro heq
  have hmem : m.id ∈ old.children := by
    rwa [h.children_eq x old hold, mem_childrenIn_iff h.keyed]
  have hlinked := linked_insert h hinsert
  rw [heq, hlinked.children_eq x new hnew, mem_childrenIn_iff hlinked.keyed, parentIn_of_insert h hinsert,
    if_pos rfl] at hmem
  exact hmoved hmem

end Tree

namespace Client.Session

open Cache (Key Memory Record)

variable {ρ : Type} {s s' : Session ρ Memory} {conversation : String} {parent : Option String} {m : Message}

/-! ### What attaching writes to the cache -/

/-- The cached records of a conversation name the same parent and the same children as their messages in the tree. -/
def CachesLinks (conversation : String) (s : Session ρ Memory) : Prop :=
  ∀ r ∈ s.stores.cache.recordsOf conversation, ∀ m ∈ s.tree.get? r.id,
    r.message.parent = m.parent ∧ r.message.children = m.children

instance (conversation : String) (s : Session ρ Memory) : Decidable (CachesLinks conversation s) :=
  inferInstanceAs (Decidable (∀ r ∈ s.stores.cache.recordsOf conversation, ∀ m ∈ s.tree.get? r.id,
    r.message.parent = m.parent ∧ r.message.children = m.children))

/-- To attach the message under the parent takes it away from another one, of which there is a record. -/
def TakesFromCached (conversation : String) (s : Session ρ Memory) (parent : Option String) (id : String) : Prop :=
  ∃ p, parentIn s.tree.messages id = some p ∧ s.tree.contains p ∧ parent.filter s.tree.contains ≠ some p ∧
    (⟨conversation, p⟩ : Key) ∈ s.stores.cache.records

/-- Cached for a message are the message itself and its parent as it is now. -/
lemma mem_attachedRecords_iff {κ : Type} {s : Session ρ κ} {id : String} {r : Record}
    (hm : s.tree.get? id = some m) :
    r ∈ s.attachedRecords conversation id ↔
      ∃ m', (m.parent.bind s.tree.get? = some m' ∨ m' = m) ∧ r = s.recordOf conversation m' := by
  unfold attachedRecords
  rw [hm, List.mem_map]
  refine exists_congr fun m' => and_congr ?_ eq_comm
  rw [List.mem_append, Option.mem_toList, List.mem_singleton]

section Attached

variable {tree : Tree} (h : Linked s.tree.messages) (hinsert : s.tree.insert parent m = .ok tree)
include h hinsert

/-- What is cached for a message that is attached is the message and its new parent, as they are in the tree. -/
lemma mem_attachedRecords_attached {r : Record} :
    r ∈ (s.attached tree m).attachedRecords conversation m.id ↔
      ∃ x n, (x = m.id ∨ parent.filter s.tree.contains = some x) ∧ tree.get? x = some n ∧
        r = s.recordOf conversation n := by
  obtain ⟨m', hm', -, hparent⟩ := Tree.get?_insert_self h hinsert
  rw [mem_attachedRecords_iff ((get?_attached s tree m m.id).trans hm'), hparent]
  constructor
  · rintro ⟨n, habove | rfl, rfl⟩
    · obtain ⟨p, hp, hn⟩ := Option.bind_eq_some_iff.mp habove
      rw [get?_attached] at hn
      exact ⟨p, n, Or.inr hp, hn, rfl⟩
    · exact ⟨m.id, n, Or.inl rfl, hm', rfl⟩
  · rintro ⟨x, n, rfl | hp, hn, rfl⟩
    · exact ⟨n, Or.inr (Option.some.inj (hn.symm.trans hm')), rfl⟩
    · refine ⟨n, Or.inl ?_, rfl⟩
      rw [hp, Option.bind_some, get?_attached]
      exact hn

/-- In the cache there are then the message and its new parent as they are in the tree, and under every other id what
was there before. -/
lemma getElem?_written_attached (x : String) :
    (s.stores.cache.written ((s.attached tree m).attachedRecords conversation m.id)).records[
        (⟨conversation, x⟩ : Key)]? =
      if x = m.id ∨ parent.filter s.tree.contains = some x then (tree.get? x).map (s.recordOf conversation)
      else s.stores.cache.records[(⟨conversation, x⟩ : Key)]? := by
  have hlinked := Tree.linked_insert h hinsert
  have hkey : ∀ {y n}, tree.get? y = some n → (s.recordOf conversation n).key = ⟨conversation, y⟩ :=
    fun {y n} hn => congrArg (Key.mk conversation) (hlinked.keyed y n hn)
  split
  next hx =>
    obtain ⟨n, hn⟩ : ∃ n, tree.get? x = some n := by
      refine Tree.mem_iff_exists_get?.mp ((Tree.mem_insert_iff h hinsert).mpr (hx.imp_right fun hp => ?_))
      exact (Option.filter_eq_some_iff.mp hp).2
    have hmem : s.recordOf conversation n ∈ (s.attached tree m).attachedRecords conversation m.id :=
      (mem_attachedRecords_attached h hinsert).mpr ⟨x, n, hx, hn, rfl⟩
    obtain ⟨r, hr, hkey', hfound⟩ := Memory.exists_getElem?_insertAll s.stores.cache.records hmem
    obtain ⟨y, n', -, hn', rfl⟩ := (mem_attachedRecords_attached h hinsert).mp hr
    rw [hkey hn, hkey hn'] at hkey'
    obtain rfl := (Key.mk.inj hkey').2
    obtain rfl := Option.some.inj (hn.symm.trans hn')
    rw [hkey hn] at hfound
    rw [hn]
    exact hfound
  next hx =>
    refine Memory.getElem?_insertAll_of_forall_ne fun r hr heq => ?_
    obtain ⟨y, n, hy, hn, rfl⟩ := (mem_attachedRecords_attached h hinsert).mp hr
    rw [hkey hn] at heq
    obtain rfl := (Key.mk.inj heq).2
    exact hx hy

/-- If the records agreed with the tree before, they do so afterwards except for the one of a parent that the message
was taken away from. -/
lemma cachesLinks_attached_iff (hs : s.stores.Unlimited) (hlinks : CachesLinks conversation s)
    (hcache : s'.stores.cache = s.stores.cache.written ((s.attached tree m).attachedRecords conversation m.id))
    (htree : s'.tree = (s.attached tree m).tree) :
    CachesLinks conversation s' ↔ ¬ TakesFromCached conversation s parent m.id := by
  have hkeyed : s'.stores.cache.Keyed := by
    rw [hcache]
    exact hs.keyed.written _
  have hget : ∀ x, s'.tree.get? x = tree.get? x := fun x => htree ▸ get?_attached s tree m x
  have hfound : ∀ x, s'.stores.cache.records[(⟨conversation, x⟩ : Key)]? =
      if x = m.id ∨ parent.filter s.tree.contains = some x then (tree.get? x).map (s.recordOf conversation)
      else s.stores.cache.records[(⟨conversation, x⟩ : Key)]? := by
    rw [hcache]
    exact getElem?_written_attached h hinsert
  constructor
  · rintro hafter ⟨p, hprevious, hp, hmoved, hmem⟩
    obtain ⟨r, hr⟩ := mem_iff_exists_getElem?.mp hmem
    obtain rfl : r.id = p := congrArg Key.id (hs.keyed _ r hr)
    have hne : r.id ≠ m.id := fun heq => h.acyclic m.id ⟨0, by rw [climb_one, hprevious, heq]⟩
    -- The record is not written again, so that it would have to agree with both trees.
    have hkept : s'.stores.cache.records[(⟨conversation, r.id⟩ : Key)]? = some r := by
      rw [hfound, if_neg (not_or.mpr ⟨hne, hmoved⟩), hr]
    obtain ⟨old, hold⟩ := Tree.contains_iff_exists_get?.mp hp
    obtain ⟨new, hnew⟩ := Tree.mem_iff_exists_get?.mp ((Tree.mem_insert_iff h hinsert).mpr (Or.inr hp))
    have hbefore := (hlinks r (hs.keyed.mem_recordsOf_iff.mpr hr) old hold).2
    have hthen := (hafter r (hkeyed.mem_recordsOf_iff.mpr hkept) new ((hget r.id).trans hnew)).2
    exact Tree.children_ne_of_moved h hinsert hprevious hmoved hold hnew (hbefore.symm.trans hthen)
  · intro hnot r hr n hn
    rw [hkeyed.mem_recordsOf_iff, hfound] at hr
    rw [hget, Option.mem_def] at hn
    split at hr
    next =>
      rw [hn, Option.map_some] at hr
      obtain rfl := Option.some.inj hr
      exact ⟨rfl, rfl⟩
    next hx =>
      obtain ⟨hid, hparent⟩ := not_or.mp hx
      have hthere : r.id ∈ s.tree.messages :=
        ((Tree.mem_insert_iff h hinsert).mp (Tree.mem_iff_exists_get?.mpr ⟨n, hn⟩)).resolve_left hid
      have hprevious : parentIn s.tree.messages m.id ≠ some r.id := fun hprevious =>
        hnot ⟨r.id, hprevious, hthere, hparent, mem_iff_exists_getElem?.mpr ⟨r, hr⟩⟩
      rw [Tree.get?_insert_of_uninvolved h hinsert hid hprevious hparent] at hn
      exact hlinks r (hs.keyed.mem_recordsOf_iff.mpr hr) n hn

end Attached

variable [Remote ρ]

/-- A cache without a limit stays one when a message is attached. -/
lemma unlimited_after_attach (hs : s.stores.Unlimited) (parent : Option String) (m : Message) :
    (s.after (.attach parent m)).stores.Unlimited := by
  change (s.attach parent m).2.stores.Unlimited
  unfold attach
  split
  · exact hs
  · split
    · exact hs
    · exact hs.store _

/-- The records of a conversation that agree with the tree on parents and children agree with it after a message is
attached, unless that takes the message away from a parent of which there is a record: that record goes on to list it
among the children. -/
theorem cachesLinks_attach_iff (h : Reachable s) (hs : s.stores.Unlimited) (hopen : s.conversation = some conversation)
    (hlinks : CachesLinks conversation s) (parent : Option String) (m : Message)
    (hattach : (s.attach parent m).1 = .ok ()) :
    CachesLinks conversation (s.after (.attach parent m)) ↔ ¬ TakesFromCached conversation s parent m.id := by
  cases hinsert : s.tree.insert parent m with
  | error e =>
    rw [attach_of_error hopen hinsert] at hattach
    cases hattach
  | ok tree =>
    have hafter : s.after (.attach parent m) = ((s.attached tree m).cacheAll
        ((s.attached tree m).attachedRecords conversation m.id)).notify := by
      change (s.attach parent m).2 = _
      rw [attach_of_ok hopen hinsert]
    rw [hafter]
    exact cachesLinks_attached_iff h.sound.linked hinsert hs hlinks (hs.cache_store _).1 rfl

/-- A session with a question, its answer, and another question. -/
def questioning : Session Remote.Archive Memory :=
  asking.after (.attach none (Message.ask "Who?" "d" 3))

lemma reachable_questioning : Reachable questioning :=
  ((((Reachable.start _ _).after _).after _).after _).after _

lemma unlimited_questioning : questioning.stores.Unlimited := by
  refine unlimited_after_attach (unlimited_after_attach (unlimited_after_attach ?_ _ _) _ _) _ _
  exact ⟨rfl, Memory.keyed_clear {}, rfl⟩

/-- Another answer can be attached, and so can the first one, at its place, again. -/
theorem cachesLinks_attach_questioning :
    CachesLinks "c" (questioning.after (.attach (some "a") (Message.await "model" "e" 4))) ∧
      CachesLinks "c" (questioning.after (.attach (some "a") (Message.await "model" "b" 4))) := by
  have hlinks : CachesLinks "c" questioning := by decide +kernel
  constructor
  · refine (cachesLinks_attach_iff reachable_questioning unlimited_questioning (by decide +kernel) hlinks _ _
      (by decide +kernel)).mpr ?_
    rintro ⟨p, hprevious, -⟩
    cases hprevious.symm.trans (show parentIn questioning.tree.messages "e" = none by decide +kernel)
  · refine (cachesLinks_attach_iff reachable_questioning unlimited_questioning (by decide +kernel) hlinks _ _
      (by decide +kernel)).mpr ?_
    rintro ⟨p, hprevious, -, hmoved, -⟩
    refine hmoved (Eq.trans ?_ hprevious)
    decide +kernel

/-- When the answer is moved under the other question, the cached record of the first one goes on to list it. -/
theorem not_cachesLinks_moved :
    Reachable questioning ∧ questioning.stores.Unlimited ∧ CachesLinks "c" questioning ∧
      (questioning.attach (some "d") (Message.await "model" "b" 2)).1 = .ok () ∧
      ¬ CachesLinks "c" (questioning.after (.attach (some "d") (Message.await "model" "b" 2))) := by
  exact ⟨reachable_questioning, unlimited_questioning, by decide +kernel, by decide +kernel, by decide +kernel⟩

end Client.Session

end DialogueSync
