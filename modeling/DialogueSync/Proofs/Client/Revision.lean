import DialogueSync.Proofs.Client.Refusal

/-!
# The revision

Whoever follows a session is told of a change by its revision. Every operation, whatever the stores answer, either
raises the revision by one or leaves it as it is, together with the open conversation and the whole tree
(`Move.seen`). So a session with the revision of an earlier one shows what that one showed.

No operation raises the revision by more than one. So it fits in 64 bits until there have been `2 ^ 64` operations,
and a counter of 64 bits tells the same changes so long (`Reachable.counter_misses_no_change`).
-/

namespace DialogueSync.Client.Session

variable {ρ κ : Type} {s s' s'' : Session ρ κ} {conversation : String} {op : Operation}

/-! ### Changes that are seen -/

/-- Nobody misses a change from one session to a later one: the revision does not fall, and it is higher if another
conversation is open or anything in the tree is different. -/
structure Seen (s s' : Session ρ κ) : Prop where
  /-- The revision does not fall. -/
  le : s.revision ≤ s'.revision
  /-- After a change it is higher. -/
  lt : s'.conversation ≠ s.conversation ∨ s'.tree ≠ s.tree → s.revision < s'.revision

namespace Seen

/-- Nothing has to be told if nothing is different. -/
lemma of_eq (hrevision : s'.revision = s.revision) (hconversation : s'.conversation = s.conversation)
    (htree : s'.tree = s.tree) : Seen s s' := by
  refine ⟨Nat.le_of_eq hrevision.symm, ?_⟩
  rintro (hchange | hchange)
  · exact absurd hconversation hchange
  · exact absurd htree hchange

/-- A change is told by raising the revision. -/
lemma of_raised (h : s'.revision = s.revision + 1) : Seen s s' := by
  have hlt : s.revision < s'.revision := by omega
  exact ⟨Nat.le_of_lt hlt, fun _ => hlt⟩

lemma refl (s : Session ρ κ) : Seen s s :=
  of_eq rfl rfl rfl

/-- What is different after two changes was changed by one of them. -/
lemma trans (h : Seen s s') (h' : Seen s' s'') : Seen s s'' := by
  refine ⟨Nat.le_trans h.le h'.le, fun hchange => ?_⟩
  by_cases hfirst : s'.conversation ≠ s.conversation ∨ s'.tree ≠ s.tree
  · exact Nat.lt_of_lt_of_le (h.lt hfirst) h'.le
  · rw [not_or, not_not, not_not] at hfirst
    obtain ⟨hconversation, htree⟩ := hfirst
    rw [← hconversation, ← htree] at hchange
    exact Nat.lt_of_le_of_lt h.le (h'.lt hchange)

end Seen

/-! ### One operation -/

variable [Remote ρ] [Cache κ]

/-- Whatever is done within the open conversation is seen. -/
lemma Step.seen (h : Step conversation s op s') : Seen s s' := by
  cases h with
  | idle => exact .refl s
  | select => exact .of_raised rfl
  | noteRequest => exact .of_eq rfl rfl rfl
  | recoverCache => exact .of_eq rfl rfl rfl
  | attach => exact .of_raised rfl
  | increment => exact .of_raised rfl
  -- The last increment is applied without being told; making the response complete tells both.
  | last => exact .of_raised (revision_concluded _ _ _)
  | conclude => exact .of_raised (revision_concluded _ _ _)
  | delete => exact .of_raised (revision_save _ _)
  | reload => exact .of_raised rfl
  | fail => exact .of_eq rfl rfl rfl

/-- Whatever is done is seen. -/
lemma Move.seen (h : Move s op s') : Seen s s' := by
  cases h with
  | remain _ _ hstep => exact hstep.seen
  | refuse => exact .refl s
  | select => exact .of_raised rfl
  | noteRequest => exact .of_eq rfl rfl rfl
  | recoverCache => exact .of_eq rfl rfl rfl
  | startNew => exact .of_raised rfl
  | switch => exact .of_raised rfl
  | switchOffline => exact .of_raised rfl

/-- A step raises the counter by one at most. -/
lemma Step.revision_le (h : Step conversation s op s') : s'.revision ≤ s.revision + 1 := by
  cases h with
  | select | attach | increment | reload => exact Nat.le_refl _
  | last | conclude => exact Nat.le_of_eq (revision_concluded _ _ _)
  | delete => exact Nat.le_of_eq (revision_save _ _)
  | idle | noteRequest | recoverCache | fail => exact Nat.le_succ _

/-- No operation raises the revision by more than one. -/
lemma Move.revision_le (h : Move s op s') : s'.revision ≤ s.revision + 1 := by
  cases h with
  | remain _ _ hstep => exact hstep.revision_le
  | select | startNew | switch | switchOffline => exact Nat.le_refl _
  | refuse | noteRequest | recoverCache => exact Nat.le_succ _

/-! ### Runs -/

/-- Whatever is done in a run is seen. -/
lemma Sound.seen_runTimed (h : Sound s) (events : List Event) : Seen s (s.runTimed events) := by
  induction events generalizing s with
  | nil => exact .refl s
  | cons e rest ih =>
    have htime : Seen s (s.atTime e.now) := .of_eq rfl rfl rfl
    have hnow := h.atTime e.now
    exact (htime.trans (hnow.move_after e.op).seen).trans (ih (hnow.after e.op))

/-- The revision counts no more than the operations of a run. -/
lemma Sound.revision_runTimed_le (h : Sound s) (events : List Event) :
    (s.runTimed events).revision ≤ s.revision + events.length := by
  induction events generalizing s with
  | nil => exact Nat.le_refl _
  | cons e rest ih =>
    have hnow := h.atTime e.now
    have hfirst : ((s.atTime e.now).after e.op).revision ≤ s.revision + 1 := (hnow.move_after e.op).revision_le
    have hrest := ih (hnow.after e.op)
    rw [runTimed_cons, List.length_cons]
    omega

/-- From any session that can be reached every operation is seen, whatever the stores answer, and so is every run. -/
theorem Reachable.misses_no_change (h : Reachable s) :
    (∀ op, Seen s (s.after op)) ∧ ∀ events, Seen s (s.runTimed events) :=
  ⟨fun op => (h.sound.move_after op).seen, h.sound.seen_runTimed⟩

/-- The last increment of a response is told when the response is made complete. -/
theorem misses_no_change_asking :
    let op : Operation := .receive "b" { content := some "Because.", done := true }
    (asking.after op).tree ≠ asking.tree ∧ asking.revision < (asking.after op).revision := by
  intro op
  have hreachable : Reachable asking := (((Reachable.start _ _).after _).after _).after _
  have hchange : (asking.after op).tree ≠ asking.tree := by
    intro heq
    have hcontent := congrArg (fun t => (t.get? "b").map Message.content) heq
    revert hcontent
    decide +kernel
  exact ⟨hchange, (hreachable.misses_no_change.1 op).lt (Or.inr hchange)⟩

/-- Who follows a counter of 64 bits misses no change either, unless there are so many operations that it starts
again from zero. -/
theorem Reachable.counter_misses_no_change (h : Reachable s) {events : List Event}
    (hfits : s.revision + events.length < UInt64.size)
    (hchange : (s.runTimed events).conversation ≠ s.conversation ∨ (s.runTimed events).tree ≠ s.tree) :
    UInt64.ofNat s.revision < UInt64.ofNat (s.runTimed events).revision := by
  have hseen : s.revision < (s.runTimed events).revision := (h.sound.seen_runTimed events).lt hchange
  have hle : (s.runTimed events).revision ≤ s.revision + events.length := h.sound.revision_runTimed_le events
  rw [UInt64.lt_iff_toNat_lt, UInt64.toNat_ofNat_of_lt' (by omega), UInt64.toNat_ofNat_of_lt' (by omega)]
  exact hseen

end DialogueSync.Client.Session
