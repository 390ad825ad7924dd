import DialogueSync.Proofs.Remote.Honest
import DialogueSync.Proofs.Tree.WellFormed

/-!
# Reliable remote stores

A remote store is `Reliable` about a conversation if it never fails: it is honest about the tree that it holds
for the conversation, and saving puts the tree of the saved history in the place of that tree. An archive is
reliable about every conversation (`Archive.reliable`).
-/

namespace DialogueSync.Remote

/-- In all states with a property the remote store is honest about the tree that it holds for a conversation,
and when the conversation is saved it holds the tree of the saved history from then on. -/
structure Reliable {ρ : Type} [Remote ρ] (holds : ρ → Prop) (held : ρ → Option Tree)
    (conversation : String) : Prop where
  /-- What is asked is answered from the tree. -/
  honest : ∀ t, Honest (fun a => holds a ∧ held a = some t) conversation t
  /-- Saving succeeds and puts the tree of the history in the place of the tree. -/
  save : ∀ a request, holds a → ∃ a', Remote.save conversation request a = (.ok (), a') ∧ holds a' ∧
    held a' = some (Tree.ofHistory request.history)

/-- The archive has the messages of a conversation under their own ids. -/
def Archive.KeyedAt (conversation : String) (a : Archive) : Prop :=
  ∀ t, a[conversation]? = some t → IdMap.Keyed Message.id t.messages

/-- An archive is reliable as long as every message is under its own id. -/
lemma Archive.reliable (conversation : String) :
    Reliable (Archive.KeyedAt conversation) (fun a => a[conversation]?) conversation where
  honest t := by
    have hstay : ∀ {a a' : Archive}, KeyedAt conversation a ∧ a[conversation]? = some t →
        a'[conversation]? = some t → KeyedAt conversation a' ∧ a'[conversation]? = some t := by
      intro a a' ha ha'
      refine ⟨fun t' ht' => ?_, ha'⟩
      obtain rfl := Option.some.inj (ha'.symm.trans ht')
      exact ha.1 t ha.2
    refine ⟨fun a ha => ?_, fun a ids ha => ?_, fun a ha => ?_⟩
    · obtain ⟨a', hreply, ha'⟩ := (Archive.honest (ha.1 t ha.2) conversation).outline a ha.2
      exact ⟨a', hreply, hstay ha ha'⟩
    · obtain ⟨reply, a', hreply, hsupplies, ha'⟩ :=
        (Archive.honest (ha.1 t ha.2) conversation).bodies a ids ha.2
      exact ⟨reply, a', hreply, hsupplies, hstay ha ha'⟩
    · obtain ⟨full, a', hreply, houtline, hsupplies, hmem, ha'⟩ :=
        (Archive.honest (ha.1 t ha.2) conversation).snapshot a ha.2
      exact ⟨full, a', hreply, houtline, hsupplies, hmem, hstay ha ha'⟩
  save a request ha := by
    have hstored := Archive.getElem?_store a conversation request.history
    refine ⟨a.store conversation request.history, rfl, fun t ht => ?_, hstored⟩
    obtain rfl := Option.some.inj (hstored.symm.trans ht)
    exact (Tree.wellFormed_ofHistory request.history).keyed

end DialogueSync.Remote
