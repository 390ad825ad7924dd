import DialogueSync.Proofs.Client.Session
import Mathlib.Data.List.Induction

/-!
# Runs of a session on one conversation

A run is a list of operations with the times at which they are done. What an operation can do to a session
that stays with its conversation is said once, as the relation `Step`; every operation is such a step
(`step_after`), and what a step preserves is proved by going through its cases.
-/

namespace DialogueSync.Client.Session

variable {ρ κ : Type} [Remote ρ] [Cache κ] {s s' : Session ρ κ} {conversation : String}
  {op : Operation}

/-! ### Runs -/

/-- An operation and the time at which it is done. -/
structure Event where
  /-- The time. -/
  now : Int64
  /-- The operation. -/
  op : Operation

/-- The session when a certain time has come. -/
def atTime (s : Session ρ κ) (now : Int64) : Session ρ κ :=
  { s with stores.clock := now }

/-- The session after several operations, each of which is done at its time. -/
def runTimed (s : Session ρ κ) (events : List Event) : Session ρ κ :=
  events.foldl (fun s e => (s.atTime e.now).after e.op) s

lemma runTimed_cons (s : Session ρ κ) (e : Event) (events : List Event) :
    s.runTimed (e :: events) = ((s.atTime e.now).after e.op).runTimed events :=
  rfl

/-- To run through two lists of events is to run through one after the other. -/
lemma runTimed_append (s : Session ρ κ) (before after : List Event) :
    s.runTimed (before ++ after) = (s.runTimed before).runTimed after :=
  List.foldl_append

/-- The last event comes to what the others have led to. -/
lemma runTimed_concat (s : Session ρ κ) (before : List Event) (e : Event) :
    s.runTimed (before ++ [e]) = ((s.runTimed before).atTime e.now).after e.op :=
  runTimed_append s before [e]

/-- Every operation of a run is allowed in the session in which it is done. -/
def Along (allowed : Session ρ κ → Operation → Prop) : Session ρ κ → List Event → Prop
  | _, [] => True
  | s, e :: events =>
    allowed (s.atTime e.now) e.op ∧ Along allowed ((s.atTime e.now).after e.op) events

instance decidableAlong {allowed : Session ρ κ → Operation → Prop} [∀ s op, Decidable (allowed s op)] :
    (s : Session ρ κ) → (events : List Event) → Decidable (Along allowed s events)
  | _, [] => isTrue trivial
  | s, e :: events =>
    @instDecidableAnd _ _ _ (decidableAlong ((s.atTime e.now).after e.op) events)

/-- Along a run with one more event the operations are allowed if those before are, and the last one is. -/
lemma along_concat_iff {allowed : Session ρ κ → Operation → Prop} {events : List Event} {e : Event} :
    Along allowed s (events ++ [e]) ↔
      Along allowed s events ∧ allowed ((s.runTimed events).atTime e.now) e.op := by
  induction events generalizing s with
  | nil => exact ⟨fun h => ⟨trivial, h.1⟩, fun h => ⟨h.2, trivial⟩⟩
  | cons first events ih =>
    rw [List.cons_append, Along, Along, ih, and_assoc]
    rfl

/-- What is allowed along a run is allowed along its beginning. -/
lemma Along.of_append {allowed : Session ρ κ → Operation → Prop} {before after : List Event}
    (h : Along allowed s (before ++ after)) : Along allowed s before := by
  induction before generalizing s with
  | nil => trivial
  | cons e before ih => exact ⟨h.1, ih h.2⟩

/-- Two things that hold along a run hold together. -/
lemma Along.and {allowed allowed' : Session ρ κ → Operation → Prop} {events : List Event}
    (h : Along allowed s events) (h' : Along allowed' s events) :
    Along (fun s op => allowed s op ∧ allowed' s op) s events := by
  induction events generalizing s with
  | nil => trivial
  | cons e events ih => exact ⟨⟨h.1, h'.1⟩, ih h.2 h'.2⟩

/-- What is allowed in every session is allowed along a run. -/
lemma Along.of_forall {allowed : Session ρ κ → Operation → Prop} {events : List Event}
    (h : ∀ e ∈ events, ∀ s, allowed s e.op) : Along allowed s events := by
  induction events generalizing s with
  | nil => trivial
  | cons e events ih =>
    exact ⟨h e List.mem_cons_self _, ih fun e' he' => h e' (List.mem_cons_of_mem e he')⟩

/-- What does not depend on the time, and what every allowed operation preserves, holds after a run. -/
lemma Along.preserves {allowed : Session ρ κ → Operation → Prop} {inv : Session ρ κ → Prop}
    (htime : ∀ s now, inv s → inv (s.atTime now))
    (hstep : ∀ s op, inv s → allowed s op → inv (s.after op)) {events : List Event}
    (h : Along allowed s events) (hs : inv s) : inv (s.runTimed events) := by
  induction events generalizing s with
  | nil => exact hs
  | cons e events ih =>
    rw [runTimed_cons]
    exact ih h.2 (hstep _ e.op (htime s e.now hs) h.1)

/-- A property that every operation makes true or settles otherwise, or else leaves as it was, holds after a run
exactly if an operation has made it true and no later one has settled it. -/
lemma runTimed_iff_of_concat (holds : Session ρ κ → Prop) {makes settles : Session ρ κ → Operation → Prop}
    (hs : ¬ holds s) (hstep : ∀ events (e : Event), holds (s.runTimed (events ++ [e])) ↔
      makes ((s.runTimed events).atTime e.now) e.op ∨
        ¬ settles ((s.runTimed events).atTime e.now) e.op ∧ holds (s.runTimed events))
    (events : List Event) :
    holds (s.runTimed events) ↔ ∃ before e after, events = before ++ e :: after ∧
      makes ((s.runTimed before).atTime e.now) e.op ∧
      Along (fun s op => ¬ settles s op) (s.runTimed (before ++ [e])) after := by
  induction events using List.reverseRecOn with
  | nil =>
    refine iff_of_false hs ?_
    rintro ⟨before, e, after, hsplit, -⟩
    exact List.append_ne_nil_of_right_ne_nil before (List.cons_ne_nil e after) hsplit.symm
  | append_singleton events last ih =>
    rw [hstep, ih]
    constructor
    · rintro (hmakes | ⟨hop, before, e, after, rfl, hmakes, halong⟩)
      · exact ⟨events, last, [], rfl, hmakes, trivial⟩
      · refine ⟨before, e, after ++ [last], by simp, hmakes, along_concat_iff.mpr ⟨halong, ?_⟩⟩
        rwa [← runTimed_append, List.append_assoc]
    · rintro ⟨before, e, after, hsplit, hmakes, halong⟩
      rcases List.eq_nil_or_concat after with rfl | ⟨after, last', rfl⟩
      · obtain ⟨rfl, hlast⟩ := List.append_inj' hsplit rfl
        obtain rfl := (List.cons.inj hlast).1
        exact Or.inl hmakes
      · rw [List.concat_eq_append, ← List.cons_append, ← List.append_assoc] at hsplit
        obtain ⟨rfl, hlast⟩ := List.append_inj' hsplit rfl
        obtain rfl := (List.cons.inj hlast).1
        rw [List.concat_eq_append, along_concat_iff, ← runTimed_append, List.append_assoc] at halong
        exact Or.inr ⟨halong.2, before, e, after, rfl, hmakes, halong.1⟩

/-- The operation stays with a conversation. -/
def Remains (conversation : String) : Operation → Prop
  | .startNew _ => False
  | .load conversation' => conversation' = conversation
  | .attach .. | .select _ | .noteRequest .. | .receive .. | .finish _ | .stop _ | .delete _
  | .recoverCache => True

/-! ### Steps -/

/-- The operation is refused, or there is nothing for it to do. -/
def Idle (s : Session ρ κ) : Operation → Prop
  | .attach parent m => ∃ e, s.tree.insert parent m = .error e
  | .receive id _ => ∀ m, s.tree.get? id = some m → m.done = true
  | .finish id | .stop id =>
    ∀ m, s.tree.get? id = some m → m.done = true ∧ s.streams.isActive m.id = false
  | .delete id => id ∉ s.tree.messages
  | .startNew _ | .load _ | .select _ | .noteRequest .. | .recoverCache => False

/-- What an operation can do to a session that stays with its conversation. -/
inductive Step (conversation : String) (s : Session ρ κ) : Operation → Session ρ κ → Prop where
  /-- Nothing is done. -/
  | idle {op : Operation} (h : Idle s op) : Step conversation s op s
  /-- Another branch is selected. -/
  | select (id : String) : Step conversation s (.select id) (s.select id)
  /-- It is noted that a request was sent. -/
  | noteRequest (id : String) (sentAt : Int64) :
      Step conversation s (.noteRequest id sentAt) (s.noteRequest id sentAt)
  /-- The cache is cleared. -/
  | recoverCache : Step conversation s .recoverCache s.recoverCache.2
  /-- A message is attached and cached. -/
  | attach {parent : Option String} {m : Message} {tree : Tree}
      (h : s.tree.insert parent m = .ok tree) :
      Step conversation s (.attach parent m) ((s.attached tree m).cacheAll
        ((s.attached tree m).attachedRecords conversation m.id)).notify
  /-- An increment is applied. -/
  | increment {id : String} {d : Delta} {m : Message} (h : s.tree.get? id = some m)
      (hm : m.done = false) (hd : d.done = false) :
      Step conversation s (.receive id d) (s.applied m d).notify
  /-- The last increment is applied. -/
  | last {id : String} {d : Delta} {m : Message} (h : s.tree.get? id = some m)
      (hm : m.done = false) (hd : d.done = true) :
      Step conversation s (.receive id d) ((s.applied m d).concluded conversation (d.applyTo m))
  /-- A response is made complete. -/
  | conclude {id : String} {op : Operation} (hop : op = .finish id ∨ op = .stop id) {m : Message}
      (h : s.tree.get? id = some m) (hm : m.done = false ∨ s.streams.isActive m.id) :
      Step conversation s op (s.concluded conversation m)
  /-- A message is taken out. -/
  | delete {id : String} (h : id ∈ s.tree.messages) :
      Step conversation s (.delete id) ((s.cleared conversation id).notify.save conversation)
  /-- The conversation is synchronised. -/
  | reload {tree : Tree} {report : Report} {stores : Stores ρ κ}
      (h : s.stores.refresh conversation = (.ok (tree, report), stores)) :
      Step conversation s (.load conversation) { s with
        stores := stores
        tree := carryInFlight s.tree s.streams tree
        report := some report }.notify
  /-- The conversation cannot be synchronised. -/
  | fail {e : Failure} {stores : Stores ρ κ}
      (h : s.stores.refresh conversation = (.error e, stores)) :
      Step conversation s (.load conversation) { s with
        stores := stores
        notices := s.notices ++ ["Could not refresh conversation: " ++ e.message] }

/-- Making a response complete is a step, with either operation. -/
lemma step_finish (hopen : s.conversation = some conversation) {id : String}
    (hop : op = .finish id ∨ op = .stop id) : Step conversation s op (s.finish id).2 := by
  have hidle : (∀ m, s.tree.get? id = some m →
      m.done = true ∧ s.streams.isActive m.id = false) → Idle s op := by
    intro h
    rcases hop with rfl | rfl <;> exact h
  cases hm : s.tree.get? id with
  | none =>
    rw [finish_of_none hopen hm]
    exact .idle (hidle fun m hm' => by rw [hm] at hm'; cases hm')
  | some m =>
    by_cases hwhy : m.done = false ∨ s.streams.isActive m.id
    · rw [finish_of_open hopen hm hwhy]
      exact .conclude hop hm hwhy
    · rw [not_or, Bool.not_eq_false, Bool.not_eq_true] at hwhy
      rw [finish_of_done hopen hm hwhy.1 hwhy.2]
      refine .idle (hidle fun m' hm' => ?_)
      obtain rfl := Option.some.inj (hm.symm.trans hm')
      exact hwhy

/-- Every operation that stays with the conversation is such a step. -/
theorem step_after (hopen : s.conversation = some conversation)
    (hkeyed : IdMap.Keyed Message.id s.tree.messages) (hop : Remains conversation op) :
    Step conversation s op (s.after op) := by
  cases op with
  | startNew => exact hop.elim
  | load conversation' =>
    obtain rfl : conversation' = conversation := hop
    change Step conversation' s _ (s.load conversation')
    cases hrefresh : s.stores.refresh conversation' with
    | mk reply stores =>
      cases reply with
      | ok outcome =>
        rw [load_of_ok hopen hrefresh]
        exact .reload hrefresh
      | error e =>
        rw [load_of_error hopen hrefresh]
        exact .fail hrefresh
  | attach parent m =>
    change Step conversation s _ (s.attach parent m).2
    cases hinsert : s.tree.insert parent m with
    | ok tree =>
      rw [attach_of_ok hopen hinsert]
      exact .attach hinsert
    | error e =>
      rw [attach_of_error hopen hinsert]
      exact .idle ⟨e, hinsert⟩
  | select id => exact .select id
  | noteRequest id sentAt => exact .noteRequest id sentAt
  | receive id d =>
    change Step conversation s _ (s.receive id d).2
    -- An increment is refused, ignored, applied, or applied as the last one.
    cases hm : s.tree.get? id with
    | none =>
      rw [receive_of_none hm]
      exact .idle fun m hm' => by rw [hm] at hm'; cases hm'
    | some m =>
      cases hdone : m.done with
      | true =>
        rw [receive_of_done hm hdone]
        refine .idle fun m' hm' => ?_
        obtain rfl := Option.some.inj (hm.symm.trans hm')
        exact hdone
      | false =>
        cases hd : d.done with
        | false =>
          rw [receive_of_open hm hdone hd]
          exact .increment hm hdone hd
        | true =>
          rw [receive_of_last hopen hkeyed hm hdone hd]
          exact .last hm hdone hd
  | finish id => exact step_finish hopen (Or.inl rfl)
  | stop id => exact step_finish hopen (Or.inr rfl)
  | delete id =>
    change Step conversation s _ (s.delete id).2
    by_cases hid : id ∈ s.tree.messages
    · rw [delete_of_mem hopen hid]
      exact .delete hid
    · have hcontains : s.tree.contains id = false := by
        rw [← Bool.not_eq_true]
        exact hid
      rw [delete_of_not_mem hopen hcontains]
      exact .idle hid
  | recoverCache => exact .recoverCache

end DialogueSync.Client.Session
