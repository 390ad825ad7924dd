import DialogueSync.Proofs.Remote.Reliable

/-!
# Shifting remote stores

Other clients work on a remote store as well, so that it may hold something else whenever it is asked again. It
is `Shifting` if every single answer is nevertheless right for what is held at that moment. Nothing is said about
what it holds after a call, nor about which calls fail.

An archive that is exchanged between any two calls is shifting (`Exchanged.shifting`).
-/

namespace DialogueSync.Remote

open Message (SameBody)

/-- The messages are of the tree, with the bodies that they have there. -/
def AreOf (t : Tree) (reply : List Message) : Prop :=
  ∀ m ∈ reply, ∃ m', t.get? m.id = some m' ∧ SameBody m m'

/-- In all states with a property the remote store answers what is asked about a conversation from the tree
that it holds for it then, or with a failure, and it stays in such states. -/
structure Shifting {ρ : Type} [Remote ρ] (holds : ρ → Prop) (held : ρ → String → Option Tree) : Prop where
  /-- The outline is that of the tree. -/
  outline : ∀ conversation a, holds a → holds (Remote.outline conversation a).2 ∧
    ∀ o, (Remote.outline conversation a).1 = .ok o →
      ∃ t, held a conversation = some t ∧ o = t.outline
  /-- The bodies are those of the tree. -/
  bodies : ∀ conversation ids a, holds a → holds (Remote.bodies conversation ids a).2 ∧
    ∀ reply, (Remote.bodies conversation ids a).1 = .ok reply →
      ∃ t, held a conversation = some t ∧ AreOf t reply
  /-- The whole conversation is the tree. -/
  snapshot : ∀ conversation a, holds a → holds (Remote.snapshot conversation a).2 ∧
    ∀ full, (Remote.snapshot conversation a).1 = .ok full →
      ∃ t, held a conversation = some t ∧ full.outline = t.outline ∧ AreOf t full.bodies
  /-- Saving leads to such a state. -/
  save : ∀ conversation request a, holds a → holds (Remote.save conversation request a).2

/-! ### Archives that are exchanged -/

/-- An archive that has all messages under their own ids has so with another tree in it that does. -/
lemma Archive.keyedAt_insert {archive : Archive} (h : ∀ conversation, archive.KeyedAt conversation) {t : Tree}
    (ht : IdMap.Keyed Message.id t.messages) (conversation : String) :
    ∀ other, Archive.KeyedAt other (archive.insert conversation t) := by
  intro other t' ht'
  by_cases hother : other = conversation
  · subst hother
    obtain rfl := Option.some.inj (Std.ExtTreeMap.getElem?_insert_self.symm.trans ht')
    exact ht
  · refine h other t' ?_
    rwa [Std.ExtTreeMap.getElem?_insert, if_neg (by simpa using Ne.symm hother)] at ht'

/-- The messages of a conversation that is built are under their own ids. -/
lemma Archive.keyedAt_ofMessages (conversation : String) (ms : List Message) (current : Option String) :
    ∀ other, Archive.KeyedAt other ((∅ : Archive).insert conversation (Tree.ofMessages ms current)) :=
  keyedAt_insert (fun _ _ ht => by cases ht) (Tree.wellFormed_ofMessages ms current).keyed conversation

/-- An archive, and what is to be found in its place after each of the next calls. -/
structure Exchanged where
  /-- The archive as it is now. -/
  archive : Archive
  /-- What takes its place after the next calls. -/
  later : List Archive := []

namespace Exchanged

/-- After a call that leaves an archive behind the next one takes its place, if there is one. -/
def next (a : Exchanged) (archive : Archive) : Exchanged :=
  match a.later with
  | [] => ⟨archive, []⟩
  | first :: rest => ⟨first, rest⟩

instance : Remote Exchanged where
  outline conversation a := ((Remote.outline conversation a.archive).1, a.next a.archive)
  bodies conversation ids a := ((Remote.bodies conversation ids a.archive).1, a.next a.archive)
  snapshot conversation a := ((Remote.snapshot conversation a.archive).1, a.next a.archive)
  save conversation request a :=
    ((Remote.save conversation request a.archive).1, a.next (Remote.save conversation request a.archive).2)

/-- The messages are under their own ids, now and later. -/
def Keyed (a : Exchanged) : Prop :=
  ∀ archive ∈ a.archive :: a.later, ∀ conversation, archive.KeyedAt conversation

/-- The tree of a conversation as it is now. -/
def held (a : Exchanged) (conversation : String) : Option Tree :=
  a.archive[conversation]?

variable {a : Exchanged} {conversation : String}

/-- The server may go over to another archive of this kind. -/
lemma Keyed.next (h : a.Keyed) {archive : Archive}
    (harchive : ∀ conversation, archive.KeyedAt conversation) : (a.next archive).Keyed := by
  intro other hother
  unfold Exchanged.next at hother
  split at hother
  next => rwa [List.mem_singleton.mp hother]
  next first rest hlater => exact h other (List.mem_cons_of_mem _ (hlater ▸ hother))

/-- What is asked is answered from the tree of the conversation. -/
lemma exists_of_ask {α : Type} {archive : Archive} {question : Tree → α} {x : α}
    (h : archive.ask conversation question = .ok x) :
    ∃ t, archive[conversation]? = some t ∧ x = question t := by
  unfold Archive.ask at h
  split at h
  next t ht => exact ⟨t, ht, (Except.ok.inj h).symm⟩
  next => cases h

/-- Messages that are found in a tree are of the tree. -/
lemma areOf_of_get? {t : Tree} (ht : IdMap.Keyed Message.id t.messages) {reply : List Message}
    (h : ∀ m ∈ reply, ∃ id, t.get? id = some m) : AreOf t reply := by
  intro m hm
  obtain ⟨id, hid⟩ := h m hm
  exact ⟨m, by rw [ht id m hid, hid], SameBody.refl m⟩

/-- Each call is answered from the archive as it is then. -/
lemma shifting : Shifting Keyed held where
  outline conversation a ha := by
    have hkeyed := ha a.archive List.mem_cons_self
    exact ⟨ha.next hkeyed, fun o ho => exists_of_ask ho⟩
  bodies conversation ids a ha := by
    have hkeyed := ha a.archive List.mem_cons_self
    refine ⟨ha.next hkeyed, fun reply hreply => ?_⟩
    obtain ⟨t, ht, rfl⟩ := exists_of_ask hreply
    refine ⟨t, ht, areOf_of_get? (hkeyed conversation t ht) fun m hm => ?_⟩
    obtain ⟨id, -, hid⟩ := List.mem_filterMap.mp hm
    exact ⟨id, hid⟩
  snapshot conversation a ha := by
    have hkeyed := ha a.archive List.mem_cons_self
    refine ⟨ha.next hkeyed, fun full hfull => ?_⟩
    obtain ⟨t, ht, rfl⟩ := exists_of_ask hfull
    exact ⟨t, ht, rfl, areOf_of_get? (hkeyed conversation t ht) fun m hm => mem_values_iff.mp hm⟩
  save conversation request a ha :=
    ha.next (Archive.keyedAt_insert (ha a.archive List.mem_cons_self)
      (Tree.wellFormed_ofHistory request.history).keyed conversation)

end Exchanged

end DialogueSync.Remote
