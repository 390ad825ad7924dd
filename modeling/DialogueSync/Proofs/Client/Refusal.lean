import DialogueSync.Proofs.Client.Soundness
import DialogueSync.Remote.Archive

/-!
# Operations that are refused

An operation on a message is refused if no conversation is open, if the message is not there, or if it would come
to stand under itself. All of this is checked before anything is done, so that an operation that is refused leaves
the session as it was, with everything that belongs to it, and makes no call (`Reachable.refused_iff`).

The last increment of a response is applied first and the response made complete after that, which checks again that
a conversation is open and the message there. This cannot fail any more, because in a session that was reached by
its operations messages are shown only while a conversation is open.
-/

namespace DialogueSync.Client

open DialogueSync.Tree (isWithin)

/-- Why an operation was refused, if it was. -/
def Answer.failure? : Answer → Option Failure
  | .result (.error e) | .outcome (.error e) => some e
  | .result (.ok _) | .outcome (.ok _) | .nothing | .history _ | .current _ | .flag _ => none

namespace Session

variable {ρ κ : Type} [Remote ρ] [Cache κ] {s : Session ρ κ} {op : Operation}

/-! ### Sessions that can be reached -/

/-- The session comes from one that has just been made, by operations, by handing out notices, and by changes from
outside, which affect the settings, the clock, and the two stores. -/
inductive Reachable : Session ρ κ → Prop where
  /-- A session is made. -/
  | start (stores : Stores ρ κ) (settings : Settings) : Reachable { stores := stores, settings := settings }
  /-- An operation is done. -/
  | after {s : Session ρ κ} (h : Reachable s) (op : Operation) : Reachable (s.after op)
  /-- The notices are handed out. -/
  | drainNotices {s : Session ρ κ} (h : Reachable s) : Reachable s.drainNotices.2
  /-- Something changes that is not under the control of the session. -/
  | outside {s : Session ρ κ} (h : Reachable s) (stores : Stores ρ κ) (settings : Settings) :
      Reachable { s with stores := stores, settings := settings }

/-- A session that can be reached is sound. -/
lemma Reachable.sound (h : Reachable s) : Sound s := by
  induction h with
  | start => exact Sound.of_eq_empty rfl
  | after _ op ih => exact ih.after op
  | drainNotices _ ih => exact ⟨ih.linked, ih.eq_empty⟩
  | outside _ _ _ ih => exact ⟨ih.linked, ih.eq_empty⟩

/-! ### Refusals -/

/-- The reasons for which an operation is refused. -/
def Refuses (s : Session ρ κ) : Operation → Failure → Prop
  | .attach parent m, e => s.conversation = none ∧ e = .noConversation ∨ s.conversation ≠ none ∧
      ∃ p, parent = some p ∧ p ∈ s.tree.messages ∧ isWithin s.tree.messages p m.id ∧ e = .wouldCycle m.id p
  | .receive id _, e => id ∉ s.tree.messages ∧ e = .unknownMessage id
  | .finish id, e | .stop id, e | .delete id, e => s.conversation = none ∧ e = .noConversation ∨
      s.conversation ≠ none ∧ id ∉ s.tree.messages ∧ e = .unknownMessage id
  | .startNew _, _ | .load _, _ | .select _, _ | .noteRequest .., _ | .recoverCache, _ => False

/-- The operation is refused for the reasons given and no others, and then nothing is done. -/
def RefusedCleanly (s : Session ρ κ) (op : Operation) : Prop :=
  ∀ e, ((s.perform op).1.failure? = some e ↔ Refuses s op e) ∧
    ((s.perform op).1.failure? = some e → s.after op = s)

/-- A refusal that leaves everything as it is, for the one reason that there is. -/
lemma refusedCleanly_of_refused {answer : Answer} {reason : Failure} (h : s.perform op = (answer, s))
    (hanswer : answer.failure? = some reason) (hreason : ∀ e, Refuses s op e ↔ e = reason) :
    RefusedCleanly s op := by
  intro e
  rw [h, hanswer, hreason, Option.some.injEq]
  exact ⟨eq_comm, fun _ => congrArg Prod.snd h⟩

/-- An operation that is accepted where there is no reason to refuse it. -/
lemma refusedCleanly_of_accepted (h : (s.perform op).1.failure? = none) (hreason : ∀ e, ¬ Refuses s op e) :
    RefusedCleanly s op := by
  intro e
  rw [h]
  exact ⟨iff_of_false (fun hnone => by cases hnone) (hreason e), fun hnone => by cases hnone⟩

/-- An operation on a message that needs an open conversation, and the message in it, and nothing else. -/
lemma refusedCleanly_of_cases (id : String)
    (hreason : ∀ e, Refuses s op e ↔ s.conversation = none ∧ e = .noConversation ∨
      s.conversation ≠ none ∧ id ∉ s.tree.messages ∧ e = .unknownMessage id)
    (hnone : s.conversation = none → s.perform op = (.result (.error .noConversation), s))
    (hunknown : ∀ conversation, s.conversation = some conversation → s.tree.get? id = none →
      s.perform op = (.result (.error (.unknownMessage id)), s))
    (hknown : ∀ conversation m, s.conversation = some conversation → s.tree.get? id = some m →
      (s.perform op).1.failure? = none) : RefusedCleanly s op := by
  cases hopen : s.conversation with
  | none => exact refusedCleanly_of_refused (hnone hopen) rfl fun e => by simp [hreason, hopen]
  | some conversation =>
    have hmem := @Tree.mem_iff_exists_get? s.tree id
    cases hm : s.tree.get? id with
    | none =>
      refine refusedCleanly_of_refused (hunknown conversation hopen hm) rfl fun e => ?_
      simp [hreason, hopen, hmem, hm]
    | some m =>
      refine refusedCleanly_of_accepted (hknown conversation m hopen hm) fun e => ?_
      simp [hreason, hopen, hmem, hm]

/-- To finish or to stop a response is refused without an open conversation, and for a message that is missing. -/
lemma refusedCleanly_finish {id : String} (hop : op = .finish id ∨ op = .stop id) : RefusedCleanly s op := by
  have hperform : s.perform op = (.result (s.finish id).1, (s.finish id).2) := by
    rcases hop with rfl | rfl <;> rfl
  refine refusedCleanly_of_cases id (fun e => ?_) (fun hnone => ?_) (fun conversation hopen hm => ?_)
    fun conversation m hopen hm => ?_
  · rcases hop with rfl | rfl <;> rfl
  · rw [hperform, finish, hnone]
  · rw [hperform, finish_of_none hopen hm]
  · rw [hperform]
    by_cases hwhy : m.done = false ∨ s.streams.isActive m.id
    · rw [finish_of_open hopen hm hwhy]
      rfl
    · rw [not_or, Bool.not_eq_false, Bool.not_eq_true] at hwhy
      rw [finish_of_done hopen hm hwhy.1 hwhy.2]
      rfl

lemma refusedCleanly_delete (id : String) : RefusedCleanly s (.delete id) := by
  have hcontains : ∀ m, s.tree.get? id = m → s.tree.contains id = m.isSome := by
    rintro m rfl
    exact Std.ExtTreeMap.contains_eq_isSome_getElem?
  refine refusedCleanly_of_cases id (fun e => Iff.rfl) (fun hnone => ?_) (fun conversation hopen hm => ?_)
    fun conversation m hopen hm => ?_
  · simp [perform, delete, hnone]
  · rw [perform, delete_of_not_mem hopen (hcontains _ hm)]
  · rw [perform, delete_of_mem hopen (hcontains _ hm)]
    rfl

namespace Sound

variable (h : Sound s)
include h

/-- A message is refused without an open conversation, and where it would be its own ancestor. -/
lemma refusedCleanly_attach (parent : Option String) (m : Message) : RefusedCleanly s (.attach parent m) := by
  cases hopen : s.conversation with
  | none =>
    have hperform : s.perform (.attach parent m) = (.result (.error .noConversation), s) := by
      simp [perform, attach, hopen]
    exact refusedCleanly_of_refused hperform rfl fun e => by simp [Refuses, hopen]
  | some conversation =>
    have hhung : ∀ p, (s.tree.hung parent m).parent = some p ↔ parent = some p ∧ p ∈ s.tree.messages :=
      fun p => Option.filter_eq_some_iff
    rcases Tree.insert_cases h.linked parent m with ⟨p, hp, hwithin, hinsert⟩ | ⟨hfree, hinsert⟩
    · have hperform : s.perform (.attach parent m) = (.result (.error (.wouldCycle m.id p)), s) := by
        rw [perform, attach_of_error hopen hinsert]
      obtain ⟨rfl, hmem⟩ := (hhung p).mp hp
      refine refusedCleanly_of_refused hperform rfl fun e => ?_
      simp [Refuses, hopen, hmem, hwithin]
    · refine refusedCleanly_of_accepted (by rw [perform, attach_of_ok hopen hinsert]; rfl) ?_
      rintro e (⟨hnone, -⟩ | ⟨-, p, hparent, hmem, hwithin, -⟩)
      · cases hopen.symm.trans hnone
      · exact hfree p ((hhung p).mpr ⟨hparent, hmem⟩) hwithin

/-- An increment is refused for a message that is missing. -/
lemma refusedCleanly_receive (id : String) (d : Delta) : RefusedCleanly s (.receive id d) := by
  cases hm : s.tree.get? id with
  | none =>
    have hid : id ∉ s.tree.messages := by
      rw [Tree.mem_iff_exists_get?, hm]
      simp
    have hperform : s.perform (.receive id d) = (.outcome (.error (.unknownMessage id)), s) := by
      rw [perform, receive_of_none hm]
    exact refusedCleanly_of_refused hperform rfl fun e => by simp [Refuses, hid]
  | some m =>
    have hid : id ∈ s.tree.messages := Tree.mem_iff_exists_get?.mpr ⟨m, hm⟩
    refine refusedCleanly_of_accepted ?_ fun e hrefuses => hrefuses.1 hid
    -- There is a message, and so a conversation is open.
    obtain ⟨conversation, hopen⟩ : ∃ conversation, s.conversation = some conversation := by
      by_contra hnone
      rw [h.eq_empty (Option.eq_none_iff_forall_ne_some.mpr fun c hc => hnone ⟨c, hc⟩)] at hid
      exact Std.ExtTreeMap.not_mem_empty hid
    cases hdone : m.done with
    | true => rw [perform, receive_of_done hm hdone]; rfl
    | false =>
      cases hd : d.done with
      | false => rw [perform, receive_of_open hm hdone hd]; rfl
      | true => rw [perform, receive_of_last hopen h.linked.keyed hm hdone hd]; rfl

end Sound

/-- In a session that can be reached an operation is refused exactly if it is an operation on a message and no
conversation is open, or the message is not there, or it would come to stand under itself. What follows an
increment that was applied is therefore never refused. An operation that is refused leaves the whole session as it
was, with its tree, the responses in flight, the notices, the revision, the report, and all that is noted about
calls on the stores. -/
theorem Reachable.refused_iff (h : Reachable s) (op : Operation) (e : Failure) :
    ((s.perform op).1.failure? = some e ↔ Refuses s op e) ∧
      ((s.perform op).1.failure? = some e → s.after op = s) := by
  have hclean : RefusedCleanly s op := by
    cases op with
    | attach parent m => exact h.sound.refusedCleanly_attach parent m
    | receive id d => exact h.sound.refusedCleanly_receive id d
    | finish id => exact refusedCleanly_finish (Or.inl rfl)
    | stop id => exact refusedCleanly_finish (Or.inr rfl)
    | delete id => exact refusedCleanly_delete id
    | _ => exact refusedCleanly_of_accepted rfl fun e => not_false
  exact hclean e

/-- A session that shows a question and its answer, reached by attaching them. -/
def asking : Session Remote.Archive Cache.Memory :=
  ((({ stores := { remote := ∅, cache := {} } } : Session Remote.Archive Cache.Memory).after (.startNew "c")).after
    (.attach none (Message.ask "Why?" "a" 1))).after (.attach (some "a") (Message.await "model" "b" 2))

/-- To attach the question under its answer is refused, and changes nothing. -/
theorem refused_asking :
    let op : Operation := .attach (some "b") (Message.ask "Why?" "a" 1)
    Reachable asking ∧ Refuses asking op (.wouldCycle "a" "b") ∧ asking.after op = asking := by
  intro op
  have hreachable : Reachable asking := (((Reachable.start _ _).after _).after _).after _
  obtain ⟨hiff, hsame⟩ := hreachable.refused_iff op (.wouldCycle "a" "b")
  have hfailure : (asking.perform op).1.failure? = some (.wouldCycle "a" "b") := by decide +kernel
  exact ⟨hreachable, hiff.mp hfailure, hsame hfailure⟩

end Session

end DialogueSync.Client
