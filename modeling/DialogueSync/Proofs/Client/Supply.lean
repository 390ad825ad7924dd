import DialogueSync.Proofs.Client.Failure

/-!
# Bodies for every message

A differential pass reads the cache twice: what is wanted is settled by the first reading, and the conversation is put
together after the second one. In between the records may have been dropped, a full cache may have been cleared, or
given up, or it cannot be read any more. None of this matters. For a message that is not wanted the record of the first
reading is still in hand, and for the others there is the reply, if it `Covers` them. So there is a body for every
message of the outline, and from there on the pass cannot fail (`finishPass_ne_error`).

What a pass needs is that the outline comes, and that the bodies which are then wanted come too: it is `Provided` for.
Nothing is written before that is known, so a pass that fails has not written anything (`put_not_noted_of_error`).
-/

namespace DialogueSync.Client

open Cache (Memory Record Scripted)

/-- The reply has a body for each of the ids. -/
def Covers (reply : List Message) (ids : List String) : Prop :=
  ∀ id ∈ ids, ∃ m ∈ reply, m.id = id

instance (reply : List Message) (ids : List String) : Decidable (Covers reply ids) :=
  inferInstanceAs (Decidable (∀ id ∈ ids, ∃ m ∈ reply, m.id = id))

section Accepting

variable {o : Outline} {held : IdMap Record} {reply : List Message} {ids : List String}

/-- If only messages of the outline are asked for, the accepted bodies are all there exactly if the reply covers what
was asked for. -/
lemma covers_iff_accept (hids : ∀ id ∈ ids, id ∈ o.nodes) : Covers reply ids ↔ ∀ id ∈ ids, id ∈ accept o reply := by
  refine forall₂_congr fun id hid => ?_
  rw [mem_accept_iff]
  exact ⟨fun hreply => ⟨hids id hid, hreply⟩, And.right⟩

/-- What was wanted is accepted from a reply that covers it. -/
lemma mem_accept_of_covers (hcover : Covers reply (wanted o held)) : ∀ id ∈ wanted o held, id ∈ accept o reply :=
  (covers_iff_accept fun _ => mem_nodes_of_mem_wanted).mp hcover

end Accepting

namespace Stores

variable {ρ κ : Type} {s s' : Stores ρ κ} {conversation : String} {o : Outline}

/-! ### Fetching -/

section Fetching

variable [Remote ρ]

/-- A fetch succeeds exactly if nothing is asked for, or the reply covers what is asked for. -/
lemma fetch_eq_ok_iff {ids : List String} (hids : ∀ id ∈ ids, id ∈ o.nodes) :
    (∃ fetched supplied, s.fetch conversation o ids = (.ok fetched, supplied)) ↔
      ids = [] ∨ ∃ reply supplied, s.askBodies conversation ids = (.ok reply, supplied) ∧ Covers reply ids := by
  constructor
  · rintro ⟨fetched, supplied, hfetch⟩
    rcases fetch_cases hfetch with ⟨hnone, -, -⟩ | ⟨-, reply, hask, rfl, hall⟩
    · exact Or.inl hnone
    · exact Or.inr ⟨reply, supplied, hask, (covers_iff_accept hids).mpr hall⟩
  · rintro (rfl | ⟨reply, supplied, hask, hcover⟩)
    · exact ⟨∅, s, rfl⟩
    · by_cases hnone : ids = []
      · subst hnone
        exact ⟨∅, s, rfl⟩
      · refine ⟨accept o reply, supplied, ?_⟩
        have hmissing : (ids.filter fun id => !(accept o reply).contains id).isEmpty = true := by
          rw [List.isEmpty_iff, List.filter_eq_nil_iff]
          intro id hid
          simpa using (covers_iff_accept hids).mp hcover id hid
        rw [fetch, if_neg (by simpa using hnone), hask]
        exact if_pos hmissing

end Fetching

/-! ### Finishing -/

section Finishing

variable [Cache κ]

/-- Once the wanted bodies have come, a pass does not fail, in whatever state it goes on. -/
lemma finishPass_ne_error {h : Holdings} {fetched : IdMap Message} (hfetched : ∀ id ∈ wanted o h.held, id ∈ fetched)
    (s : Stores ρ κ) (conversation : String) (e : Failure) (s' : Stores ρ κ) :
    s.finishPass conversation o h (wanted o h.held) fetched ≠ (.error e, s') := by
  intro hfails
  unfold finishPass at hfails
  dsimp only at hfails
  split at hfails
  · cases hfails
  next hmissing =>
    refine hmissing (List.isEmpty_iff.mpr (List.filter_eq_nil_iff.mpr fun id hid => ?_))
    simpa using (mem_bodies_assemble_iff hfetched _ _).mpr (Std.ExtTreeMap.mem_keys.mp hid)

end Finishing

/-! ### Passes -/

variable [Remote ρ] [Cache κ]

/-- The outline comes, and if any bodies are wanted then, a reply comes that covers them. -/
def Provided (s : Stores ρ κ) (conversation : String) : Prop :=
  ∃ o asked h stocked, s.askOutline conversation = (.ok o, asked) ∧
    asked.takeStock conversation o = (h, stocked) ∧
    (wanted o h.held = [] ∨
      ∃ reply supplied, stocked.askBodies conversation (wanted o h.held) = (.ok reply, supplied) ∧
        Covers reply (wanted o h.held))

/-- A pass succeeds exactly if it is provided with what it asks for. -/
lemma refreshChanged_eq_ok_iff :
    (∃ outcome, (s.refreshChanged conversation).1 = .ok outcome) ↔ s.Provided conversation := by
  constructor
  · rintro ⟨outcome, houtcome⟩
    have hpass : s.refreshChanged conversation = (.ok outcome, (s.refreshChanged conversation).2) :=
      Prod.ext houtcome rfl
    obtain ⟨p, -⟩ := exists_pass hpass
    exact ⟨p.outline, p.asked, p.holdings, p.stocked, p.askOutline_eq, p.takeStock_eq,
      (fetch_eq_ok_iff fun _ => mem_nodes_of_mem_wanted).mp ⟨_, _, p.fetch_eq⟩⟩
  · rintro ⟨o, asked, h, stocked, hask, hstock, hwanted⟩
    obtain ⟨rfl, rfl⟩ := Prod.mk.inj hstock
    obtain ⟨fetched, supplied, hfetch⟩ := (fetch_eq_ok_iff fun _ => mem_nodes_of_mem_wanted).mpr hwanted
    obtain ⟨s', ⟨p⟩⟩ := exists_pass_of_fetch hask hfetch
    exact ⟨_, congrArg Prod.fst p.refreshChanged_eq⟩

/-- A pass that fails has written nothing to the cache. -/
lemma put_not_noted_of_error {e : Failure} (h : s.refreshChanged conversation = (.error e, s'))
    (records : List Record) (reply : Except Failure Unit) : ¬ Noted s s' (.put records reply) := by
  intro hnoted
  rcases refreshChanged_error_cases h with hask | ⟨o, asked, hask, hfetch⟩
  · have hcall := hnoted.mem (askOutline_frame hask).1
    simp at hcall
  · -- Between the outline and the bodies stock is taken, without writing anything.
    have hsteps : CacheSteps conversation (fun _ => False) asked (asked.takeStock conversation o).2 :=
      .of_takeStock (fun _ => False) asked o
    obtain ⟨stock, hstock, hlocal⟩ := hsteps.exists_calls
    obtain ⟨answer, hcalls, -⟩ := fetch_error hfetch
    rw [hstock, (askOutline_frame hask).1, List.append_assoc, List.append_assoc] at hcalls
    have hcall := hnoted.mem hcalls
    simp only [List.mem_append, List.mem_singleton, reduceCtorEq, false_or, or_false] at hcall
    exact hlocal _ hcall

/-- If the reply covers what is wanted, every message of the outline gets a body, whatever is read from the cache the
second time, and the pass does not fail any more, whatever becomes of the stores. So a pass succeeds exactly if it is
provided with the outline and with the bodies that are wanted, and one that fails has written nothing. -/
theorem succeeds_once_covered (s : Stores ρ κ) (conversation : String) :
    (∀ (o : Outline) (h : Holdings) (reply : List Message), Covers reply (wanted o h.held) →
      (∀ (reread : List Record) (id : String) (n : Node), o.nodes[id]? = some n →
        ∃ b, bodyFor (matching o reread) (accept o reply) h.held id n = some b) ∧
      ∀ (supplied : Stores ρ κ) (e : Failure) (s' : Stores ρ κ),
        supplied.finishPass conversation o h (wanted o h.held) (accept o reply) ≠ (.error e, s')) ∧
    ((∃ outcome, (s.refreshChanged conversation).1 = .ok outcome) ↔ s.Provided conversation) ∧
    ∀ (e : Failure) (s' : Stores ρ κ), s.refreshChanged conversation = (.error e, s') →
      ∀ records reply, ¬ Noted s s' (.put records reply) := by
  refine ⟨fun o h reply hcover => ?_, refreshChanged_eq_ok_iff, fun e s' => put_not_noted_of_error⟩
  have hfetched := mem_accept_of_covers hcover
  exact ⟨fun reread id n hn => exists_bodyFor hfetched hn, fun supplied => finishPass_ne_error hfetched supplied _⟩

/-- The answer is all that the cache lacks, and it comes: so the exchange is put together, although the cache is given
up before it is read again. -/
theorem succeeds_once_covered_failing :
    let o := (Tree.ofHistory exchange).outline
    let held := Record.byId [Record.own "c" (Message.ask "Why?" "a" 1) 0]
    let reply := [{ Message.await "model" "b" 2 with parent := some "a" }]
    wanted o held = ["b"] ∧ Covers reply (wanted o held) ∧
      (∀ (reread : List Record) (id : String) (n : Node), o.nodes[id]? = some n →
        ∃ b, bodyFor (matching o reread) (accept o reply) held id n = some b) ∧
      (∃ outcome, ((withExchange failing).refreshChanged "c").1 = .ok outcome) ∧
      ((withExchange failing).refreshChanged "c").2.degraded = true := by
  intro o held reply
  obtain ⟨hbodies, hsucceeds, -⟩ := succeeds_once_covered (withExchange failing) "c"
  have hwanted : wanted o held = ["b"] := by decide +kernel
  have hcovers : Covers reply (wanted o held) := by decide +kernel
  obtain ⟨hask, -⟩ := askOutline_of_honest (honest_withExchange failing).1 (honest_withExchange failing).2
  refine ⟨hwanted, hcovers, (hbodies o ⟨held, false, true⟩ reply hcovers).1, hsucceeds.mpr ?_, by decide +kernel⟩
  refine ⟨o, _, _, _, Prod.ext hask rfl, rfl, Or.inr ⟨reply, _, Prod.ext ?_ rfl, ?_⟩⟩
  · decide +kernel
  · decide +kernel

end Stores

end DialogueSync.Client
