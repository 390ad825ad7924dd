import DialogueSync.Proofs.Remote.Honest
import DialogueSync.Proofs.Tree.WellFormed
import DialogueSync.Remote.Scripted

/-!
# Truthful remote stores

A remote store is `Truthful` about a conversation if every answer to a question about it is right or a failure,
and the tree that it holds for the conversation changes only when that is saved: then the tree of the saved
history takes its place, unless the call fails. In contrast to an honest store it may fail
whenever it is asked, and it may hold no tree at all.

An archive behind a script is truthful as long as all prepared replies are failures (`Scripted.truthful`).
-/

namespace DialogueSync.Remote

/-- In all states with a property the remote store answers what is asked about a conversation from the tree
that it holds for it, or with a failure. It goes on to such states, and holds another tree only if the
conversation was saved. -/
structure Truthful {ρ : Type} [Remote ρ] (holds : ρ → Prop) (held : ρ → Option Tree)
    (conversation : String) : Prop where
  /-- The outline is that of the tree. -/
  outline : ∀ a, holds a → holds (Remote.outline conversation a).2 ∧
    held (Remote.outline conversation a).2 = held a ∧
    ∀ o, (Remote.outline conversation a).1 = .ok o → ∃ t, held a = some t ∧ o = t.outline
  /-- The bodies are those of the tree. -/
  bodies : ∀ a ids, holds a → holds (Remote.bodies conversation ids a).2 ∧
    held (Remote.bodies conversation ids a).2 = held a ∧
    ∀ reply, (Remote.bodies conversation ids a).1 = .ok reply →
      ∃ t, held a = some t ∧ t.Supplies ids reply
  /-- The whole conversation is the tree. -/
  snapshot : ∀ a, holds a → holds (Remote.snapshot conversation a).2 ∧
    held (Remote.snapshot conversation a).2 = held a ∧
    ∀ full, (Remote.snapshot conversation a).1 = .ok full →
      ∃ t, held a = some t ∧ full.outline = t.outline ∧
        t.Supplies t.messages.keys full.bodies ∧ ∀ m ∈ full.bodies, t.contains m.id
  /-- Saving puts the tree of the history in the place of the tree. If it fails it may have changed nothing. -/
  save : ∀ a request, holds a → holds (Remote.save conversation request a).2 ∧
    (held (Remote.save conversation request a).2 = some (Tree.ofHistory request.history) ∨
      (∃ e, (Remote.save conversation request a).1 = .error e) ∧
        held (Remote.save conversation request a).2 = held a)

namespace Scripted

/-- Nothing but failures is prepared, and the archive has the messages of a conversation under their own ids. -/
structure OnlyFails (conversation : String) (a : Scripted Archive) : Prop where
  outlines : ∀ reply ∈ a.outlines, ∃ e, reply = .error e
  bodies : ∀ reply ∈ a.bodies, ∃ e, reply = .error e
  snapshots : ∀ reply ∈ a.snapshots, ∃ e, reply = .error e
  saves : ∀ reply ∈ a.saves, ∃ e, reply = .error e
  keyed : ∀ t, a.inner[conversation]? = some t → IdMap.Keyed Message.id t.messages

/-- A call is answered with a prepared failure, or by the archive. -/
lemma answer_cases {α : Type} {prepared : List (Except Failure α)}
    (hfails : ∀ reply ∈ prepared, ∃ e, reply = .error e)
    (call : Archive → Except Failure α × Archive) (a : Scripted Archive) :
    (∃ e, answer prepared.head? call a = (.error e, a)) ∨
      answer prepared.head? call a = ((call a.inner).1, { a with inner := (call a.inner).2 }) := by
  cases prepared with
  | nil => exact Or.inr rfl
  | cons reply rest =>
    obtain ⟨e, rfl⟩ := hfails reply List.mem_cons_self
    exact Or.inl ⟨e, rfl⟩

variable {conversation : String}

/-- Only failures stay prepared when some have been used up. -/
lemma forall_of_tail {α : Type} {prepared : List (Except Failure α)}
    (h : ∀ reply ∈ prepared, ∃ e, reply = .error e) :
    ∀ reply ∈ prepared.tail, ∃ e, reply = .error e :=
  fun reply hreply => h reply (List.mem_of_mem_tail hreply)

/-- A question about the tree of a conversation changes nothing, and is answered from the tree or with a
failure. -/
lemma answer_ask {α : Type} {prepared : List (Except Failure α)}
    (hfails : ∀ reply ∈ prepared, ∃ e, reply = .error e) (question : Tree → α)
    (a : Scripted Archive) :
    (answer prepared.head? (fun b => (b.ask conversation question, b)) a).2 = a ∧
      ∀ x, (answer prepared.head? (fun b => (b.ask conversation question, b)) a).1 = .ok x →
        ∃ t, a.inner[conversation]? = some t ∧ x = question t := by
  rcases answer_cases hfails (fun b => (b.ask conversation question, b)) a with ⟨e, h⟩ | h
  · rw [h]
    exact ⟨rfl, fun x hx => by cases hx⟩
  · rw [h]
    refine ⟨rfl, fun x hx => ?_⟩
    change a.inner.ask conversation question = .ok x at hx
    unfold Archive.ask at hx
    split at hx
    next t ht => exact ⟨t, ht, (Except.ok.inj hx).symm⟩
    next => cases hx

/-- An archive behind prepared failures is truthful. -/
lemma truthful (conversation : String) :
    Truthful (OnlyFails conversation) (fun a => a.inner[conversation]?) conversation where
  outline a ha := by
    obtain ⟨hstate, hreply⟩ : (Remote.outline conversation a).2 =
        { a with outlines := a.outlines.tail } ∧ _ :=
      answer_ask ha.outlines Tree.outline { a with outlines := a.outlines.tail }
    rw [hstate]
    exact ⟨{ ha with outlines := forall_of_tail ha.outlines }, rfl, hreply⟩
  bodies a ids ha := by
    obtain ⟨hstate, hreply⟩ : (Remote.bodies conversation ids a).2 =
        { a with bodies := a.bodies.tail } ∧ _ :=
      answer_ask ha.bodies (fun t => ids.filterMap t.get?) { a with bodies := a.bodies.tail }
    rw [hstate]
    refine ⟨{ ha with bodies := forall_of_tail ha.bodies }, rfl, fun reply hok => ?_⟩
    obtain ⟨t, ht, rfl⟩ := hreply reply hok
    exact ⟨t, ht, Tree.supplies_filterMap (ha.keyed t ht) ids⟩
  snapshot a ha := by
    obtain ⟨hstate, hreply⟩ : (Remote.snapshot conversation a).2 =
        { a with snapshots := a.snapshots.tail } ∧ _ :=
      answer_ask ha.snapshots Tree.snapshot { a with snapshots := a.snapshots.tail }
    rw [hstate]
    refine ⟨{ ha with snapshots := forall_of_tail ha.snapshots }, rfl, fun full hok => ?_⟩
    obtain ⟨t, ht, rfl⟩ := hreply full hok
    exact ⟨t, ht, rfl, Tree.supplies_snapshot (ha.keyed t ht)⟩
  save a request ha := by
    have hrest : OnlyFails conversation { a with saves := a.saves.tail } :=
      { ha with saves := forall_of_tail ha.saves }
    have hcases : (∃ e, Remote.save conversation request a =
          (.error e, { a with saves := a.saves.tail })) ∨
        Remote.save conversation request a = (.ok (), { a with
          inner := a.inner.store conversation request.history
          saves := a.saves.tail }) :=
      answer_cases ha.saves (Remote.save conversation request) { a with saves := a.saves.tail }
    -- A prepared failure leaves the archive as it is.
    rcases hcases with ⟨e, h⟩ | h
    · rw [h]
      exact ⟨hrest, Or.inr ⟨⟨e, rfl⟩, rfl⟩⟩
    · have hstored := Archive.getElem?_store a.inner conversation request.history
      rw [h]
      refine ⟨{ hrest with keyed := fun t ht => ?_ }, Or.inl hstored⟩
      obtain rfl := Option.some.inj (hstored.symm.trans ht)
      exact (Tree.wellFormed_ofHistory request.history).keyed

end Scripted

end DialogueSync.Remote
