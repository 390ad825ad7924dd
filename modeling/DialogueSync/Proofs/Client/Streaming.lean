import DialogueSync.Proofs.Client.Durability
import DialogueSync.Proofs.Client.InFlight

/-!
# Streaming a response

A response that is streamed to an open conversation loses nothing of what arrives, whatever happens around it,
and it ends once (`streamed_once`): the operation that ends it makes it complete, caches it and saves the
conversation, and nothing that comes for it later has an effect while it is shown complete.
-/

namespace DialogueSync.Client.Session

open Cache (Memory Record Scripted)
open DialogueSync.Tree (Linked)
open Remote (Truthful)

variable {ρ : Type} [Remote ρ] {s s' : Session ρ (Scripted Memory)} {conversation id content : String}
  {m : Message} {op : Operation} {holds : ρ → Prop} {held : ρ → Option Tree}

/-! ### The end of a response in flight -/

/-- An operation makes a response complete with a content. Nothing is cached but the response, which is
written unless the cache was given up, and then the conversation is saved once, as it is shown afterwards. -/
def CompletesOnce (conversation id content : String) (s s' : Session ρ (Scripted Memory)) : Prop :=
  ∃ m, s'.tree.get? id = some m ∧ m.done = true ∧ m.content = content ∧
    ∃ made reply,
      s'.stores.calls = s.stores.calls ++ made ++ [.save conversation s'.saveRequest reply] ∧
      (∀ call ∈ made, call.OnCache (· = [Record.own conversation m s.stores.clock])) ∧
      (s.stores.degraded = false →
        ∃ reply, .put [Record.own conversation m s.stores.clock] reply ∈ made)

/-- What makes a response complete in its tree does so once. -/
lemma Consolidates.completesOnce (h : Consolidates conversation s.stores s' m) :
    CompletesOnce conversation m.id m.content s s' := by
  obtain ⟨made, hmade, honly, hput⟩ := h.exists_calls
  exact ⟨m, h.get?_eq, h.done_eq, rfl, made, _, hmade, honly, hput⟩

omit [Remote ρ] in
/-- There is something to do when an incomplete response ends. -/
lemma not_idle_of_ends (hm : s.tree.get? id = some m) (hdone : m.done = false) (hends : Ends id op) :
    ¬ Idle s op := by
  intro hidle
  have hcomplete : m.done = true := by
    cases op with
    | receive x d => exact hidle m (hends.1 ▸ hm)
    | finish x => exact (hidle m (hends ▸ hm)).1
    | stop x => exact (hidle m (hends ▸ hm)).1
    | _ => exact hends.elim
  rw [hcomplete] at hdone
  cases hdone

/-- The operation that ends a response in flight makes it complete with all that has arrived. -/
lemma InFlight.ends (h : InFlight holds held conversation id content s) (hends : Ends id op) :
    ∃ m, m.id = id ∧ m.content = content ++ arriving id op ∧
      Consolidates conversation s.stores (s.after op) m ∧ Linked (s.after op).tree.messages := by
  obtain ⟨m, hm, hdone, hcontent⟩ := h.exists_message
  obtain ⟨old, m', hold, hid, hcontent', hafter⟩ :=
    exists_consolidates h.open_eq h.grounded.keyed hends (not_idle_of_ends hm hdone hends)
  obtain rfl := Option.some.inj (hm.symm.trans hold)
  have hsound : Sound s := by
    refine ⟨h.grounded.toLinked, fun hnone => ?_⟩
    rw [h.open_eq] at hnone
    cases hnone
  exact ⟨m', hid, hcontent ▸ hcontent', hafter, (hsound.after op).linked⟩

/-- Take a conversation that was just opened with a truthful remote store, and a response that is attached to
it under an unused id while the session stays with it. Until the response ends it is shown incomplete, and its
content is what it was attached with, followed by what has arrived; an increment that is not the last one makes
no call. The operation that ends the response makes it complete with all that has arrived, and saves it once.
As long as no reload succeeds after that, or if that save was accepted, it stays complete, and nothing that
comes for it has an effect. -/
theorem streamed_once (truth : Truthful holds held conversation)
    {start : Session ρ (Scripted Memory)} (hstart : Opened holds held conversation start)
    {before : List Event} (hbefore : Along (Stays held conversation) start before)
    {now : Int64} {r : Message} (hr : r.done = false)
    (hunused : Unused held conversation ((start.runTimed before).atTime now) r.id)
    (parent : Option String) {during : List Event}
    (hduring : Along (fun s op => Stays held conversation s op ∧ Continues r.id s op)
      (((start.runTimed before).atTime now).after (.attach parent r)) during) :
    let s := (((start.runTimed before).atTime now).after (.attach parent r)).runTimed during
    let content := r.content ++ arrived r.id during
    (∃ m, s.tree.get? r.id = some m ∧ m.done = false ∧ m.content = content) ∧
    (∀ id d, d.done = false → (s.after (.receive id d)).stores = s.stores) ∧
    ∀ (now : Int64) (op : Operation), Ends r.id op →
      let ended := (s.atTime now).after op
      CompletesOnce conversation r.id (content ++ arriving r.id op) (s.atTime now) ended ∧
      ∀ later, Along (fun s op => Retains conversation r.id s op ∧
            ∀ sentAt, op ≠ .noteRequest r.id sentAt) ended later →
        (Along FailsToLoad ended later ∨ SavedForGood conversation r.id (s.atTime now) ended) →
        Carries r.id (content ++ arriving r.id op) (ended.runTimed later).tree.toHistory ∧
          ∀ op, Concerns r.id op → (ended.runTimed later).after op = ended.runTimed later := by
  intro s content
  have hopened : Attuned holds held conversation (fun _ => True) (fun _ => True) (start.runTimed before) := by
    refine hbefore.preserves (fun _ now hs => hs.atTime now) (fun s op hs hop => ?_) (hstart.attuned truth)
    exact hs.after truth (hereditary_true conversation) hop
      ⟨fun _ _ _ => trivial, fun _ _ _ _ => trivial⟩
  have hflight : InFlight holds held conversation r.id content s :=
    (inFlight_attach truth (hopened.atTime now) hr hunused parent).runTimed truth hduring
  refine ⟨hflight.exists_message, fun id d hd => stores_receive s id hd, fun now op hends => ?_⟩
  obtain ⟨m, hid, hcontent, hends', hlinked⟩ := (hflight.atTime now).ends hends
  rw [← hcontent, ← hid]
  exact ⟨hends'.completesOnce, fun later hlater hkept => hends'.final hlinked hlater hkept⟩

/-- The question was loaded. -/
def questioned : Session (Remote.Scripted Remote.Archive) (Scripted Memory) :=
  (unopened []).load "c"

/-- A response arrives in two parts. In between another one is attached and made complete, which saves the
first part, and the conversation is loaded again. -/
def interleaved : List Event :=
  [⟨3, .receive "b" { content := some "Be" }⟩, ⟨4, .attach (some "a") (Message.await "model" "d" 4)⟩,
    ⟨5, .finish "d"⟩, ⟨6, .load "c"⟩, ⟨7, .receive "b" { content := some "cause" }⟩]

/-- The remote store has the question without a parent. -/
lemma opened_questioned :
    Opened (Remote.Scripted.OnlyFails "c") (fun a => a.inner["c"]?) "c" questioned := by
  have hheld : ∀ t, (unopened []).stores.remote.inner["c"]? = some t →
      t = Tree.ofMessages [Message.ask "Why?" "a" 1] none := by
    intro t ht
    rw [show (unopened []).stores.remote.inner["c"]? = _ from Std.ExtTreeMap.getElem?_insert_self] at ht
    exact (Option.some.inj ht).symm
  have hlinked := (Tree.wellFormed_ofMessages [Message.ask "Why?" "a" 1] none).toLinked
  have hroots : ∀ m ∈ (Tree.ofMessages [Message.ask "Why?" "a" 1] none).messages.values, m.parent = none := by
    decide +kernel
  have hnil := fun (α : Type) (p : α → Prop) => List.forall_mem_nil p
  refine .loaded (unopened []) ⟨hnil _ _, hnil _ _, hnil _ _, hnil _ _, fun t ht => ?_⟩ rfl (fun t ht => ?_)
    (by decide +kernel)
  · exact hheld t ht ▸ hlinked.keyed
  · rw [hheld t ht]
    refine ⟨hlinked, fun id parent hp => ?_⟩
    obtain ⟨m, hm, hparent⟩ := Option.bind_eq_some_iff.mp hp
    rw [hroots m (mem_values_iff.mpr ⟨id, hm⟩)] at hparent
    cases hparent

/-- A tree that passes the check does not have the id. -/
lemma not_mem_of_all {held : Option Tree} (h : held.all (fun t => !t.contains id) = true) :
    ∀ t, held = some t → id ∉ t.messages := by
  rintro t rfl hmem
  rw [Option.all_some, show t.contains id = true from hmem] at h
  cases h

/-- The whole response is there in the end, and saved once. -/
theorem streamed_once_interleaved :
    let s := ((questioned.atTime 2).after (.attach (some "a") (Message.await "model" "b" 2))).runTimed
      interleaved
    (∃ m, s.tree.get? "b" = some m ∧ m.done = false ∧ m.content = "Because") ∧
      CompletesOnce "c" "b" "Because" (s.atTime 8) ((s.atTime 8).after (.finish "b")) := by
  have hbefore : Along (Stays (fun a : Remote.Scripted Remote.Archive => a.inner["c"]?) "c") questioned [] :=
    trivial
  have hr : (Message.await "model" "b" 2).done = false := rfl
  have hunused : Unused (fun a : Remote.Scripted Remote.Archive => a.inner["c"]?) "c"
      ((questioned.runTimed []).atTime 2) (Message.await "model" "b" 2).id := by
    refine ⟨by decide +kernel, not_mem_of_all ?_, by decide +kernel⟩
    decide +kernel
  have hduring : Along (fun s op => Stays (fun a => a.inner["c"]?) "c" s op ∧
        Continues (Message.await "model" "b" 2).id s op)
      (((questioned.runTimed []).atTime 2).after (.attach (some "a") (Message.await "model" "b" 2)))
      interleaved := by
    refine ⟨⟨⟨trivial, ?_⟩, fun _ => rfl⟩, ⟨⟨trivial, ?_⟩, trivial⟩, ⟨⟨trivial, ?_⟩, ?_⟩,
      ⟨⟨rfl, ?_⟩, trivial⟩, ⟨⟨trivial, ?_⟩, fun _ => rfl⟩, trivial⟩
    · exact fun _ _ h => by cases h
    · intro parent m hop
      obtain ⟨-, rfl⟩ := Operation.attach.inj hop
      refine ⟨by decide +kernel, not_mem_of_all ?_⟩
      decide +kernel
    · exact fun _ _ h => by cases h
    · exact show "d" ≠ "b" by decide
    · exact fun _ _ h => by cases h
    · exact fun _ _ h => by cases h
  obtain ⟨hshown, -, hend⟩ :=
    streamed_once (Remote.Scripted.truthful "c") opened_questioned hbefore hr hunused (some "a") hduring
  exact ⟨hshown, (hend 8 (.finish "b") rfl).1⟩

end DialogueSync.Client.Session
