import DialogueSync.Proofs.Server.Answers

/-!
# Saving statement by statement

A save reads the conversation and then sends one command after the other: it opens a transaction, stores the
conversation, deletes messages, stores each message and commits. Here these commands are sent over a
connection, which has the stored tables and, while a transaction is open, the tables as the transaction sees
them. A write outside of a transaction would change the stored tables at once; one inside changes them only
when the transaction is committed, and a transaction that is given up leaves no trace.

Whatever is written in a transaction and whichever of its commands fails, the stored tables are either as they
were or have all of the writes (`run_transaction`), and saving is one such transaction (`save_eq`). So a save
that fails, at whatever point, changes no answer of the server; and one that succeeds replaces the messages of
its conversation by those of the history and leaves every other conversation as it was (`save_atomic`).
-/

namespace DialogueSync.Server

/-! ### Commands -/

/-- A statement that changes tables. -/
structure Write where
  /-- The statement. -/
  statement : Statement
  /-- What it does to the tables on which it runs. -/
  change : Tables → Tables

/-- What is sent to the database while a conversation is saved. -/
inductive Command where
  /-- Opens a transaction. -/
  | begin
  /-- Changes tables. -/
  | write (w : Write)
  /-- Commits the transaction. -/
  | commit

/-- The statement of a command. -/
def Command.statement : Command → Statement
  | begin => .begin
  | write w => w.statement
  | commit => .commit

/-- The failure of a command, if it fails. -/
def Command.failure? (fails : Statement → Bool) (cmd : Command) : Option Failure :=
  if fails cmd.statement then some (.query cmd.statement.complaint) else none

/-- The failure of the first command that fails. -/
def firstFailure? (fails : Statement → Bool) (cmds : List Command) : Option Failure :=
  cmds.findSome? (Command.failure? fails)

/-- A transaction of several writes. -/
def transaction (writes : List Write) : List Command :=
  .begin :: (writes.map .write ++ [.commit])

/-- The writes by which a history takes the place of the stored one. -/
def replacement (c : Summary) (request : SaveRequest) (now : Int64) : List Write :=
  ⟨.saveConversation, fun t => t.saveConversation c request now⟩ ::
    ⟨.pruneMessages, fun t => t.pruneMessages c.id request.history.messages⟩ ::
      request.history.messages.values.map fun m => ⟨.saveMessage m.id, fun t => t.saveMessage c.id m⟩

/-! ### Connections -/

/-- A connection to the database. -/
structure Connection where
  /-- The tables as everyone else sees them. -/
  stored : Tables
  /-- The tables as the open transaction sees them, if there is one. -/
  pending : Option Tables := none

namespace Connection

/-- What a command does that does not fail. Outside of a transaction a write takes effect at once. -/
def send (k : Connection) : Command → Connection
  | .begin => { k with pending := some k.stored }
  | .write w =>
    match k.pending with
    | some t => { k with pending := some (w.change t) }
    | none => { k with stored := w.change k.stored }
  | .commit => { stored := k.pending.getD k.stored }

/-- Gives up the transaction that is open. -/
def drop (k : Connection) : Connection :=
  { k with pending := none }

/-- Sends commands one after the other. At the first that fails the transaction is given up. -/
def run (fails : Statement → Bool) (k : Connection) : List Command → Except Failure Unit × Connection
  | [] => (.ok (), k)
  | cmd :: rest =>
    match cmd.failure? fails with
    | some e => (.error e, k.drop)
    | none => (k.send cmd).run fails rest

end Connection

/-- What is done before a conversation is saved: the request is checked, and the conversation is looked up,
or made up if there is none. -/
def Database.prepare (db : Database) (conversation : String) (request : SaveRequest) (now : Int64) :
    Except Failure Summary := do
  if Text.isBlank conversation then throw (.blankField "conversation_id")
  validate request.history
  let stored ← db.conversation? conversation
  return stored.getD ⟨conversation, titleOf request.history, now, now⟩

/-- Saves a conversation over a connection, statement by statement. -/
def Connection.save (fails : Statement → Bool) (k : Connection) (conversation : String)
    (request : SaveRequest) (now : Int64) : Except Failure Unit × Connection :=
  match Database.prepare ⟨k.stored, fails⟩ conversation request now with
  | .error e => (.error e, k.drop)
  | .ok c => k.run fails (transaction (replacement c request now))

variable {t t' : Tables} {fails : Statement → Bool} {c : Summary} {conversation other : String}
  {request : SaveRequest} {now : Int64} {e : Failure}

/-! ### Transactions -/

namespace Connection

/-- The rest of a transaction, from what has been written in it so far. -/
lemma run_pending (stored pending : Tables) (writes : List Write) :
    Connection.run fails ⟨stored, some pending⟩ (writes.map Command.write ++ [Command.commit]) =
      (firstFailure? fails (writes.map Command.write ++ [Command.commit])).elim
        (.ok (), ⟨writes.foldl (fun t w => w.change t) pending, none⟩) fun e => (.error e, ⟨stored, none⟩) := by
  induction writes generalizing pending with
  | nil =>
    rw [List.map_nil, List.nil_append, run, firstFailure?, List.findSome?_cons]
    cases Command.commit.failure? fails <;> rfl
  | cons w rest ih =>
    rw [List.map_cons, List.cons_append, run, firstFailure?, List.findSome?_cons]
    cases (Command.write w).failure? fails with
    | some e => rfl
    | none => exact ih (w.change pending)

/-- The first command of a transaction that fails is what it fails with, and then nothing is written. If none
fails, all of it is. -/
theorem run_transaction (t : Tables) (writes : List Write) :
    Connection.run fails ⟨t, none⟩ (transaction writes) =
      (firstFailure? fails (transaction writes)).elim
        (.ok (), ⟨writes.foldl (fun t w => w.change t) t, none⟩) fun e => (.error e, ⟨t, none⟩) := by
  rw [transaction, run, firstFailure?, List.findSome?_cons]
  cases Command.begin.failure? fails with
  | some e => rfl
  | none => exact run_pending t t writes

end Connection

/-! ### Saving as a transaction -/

/-- The first failure is that of the first command, or else among the others. -/
lemma firstFailure?_cons (fails : Statement → Bool) (cmd : Command) (rest : List Command) :
    firstFailure? fails (cmd :: rest) = (cmd.failure? fails).or (firstFailure? fails rest) := by
  rw [firstFailure?, List.findSome?_cons]
  cases cmd.failure? fails <;> rfl

/-- Commands fail in the order in which they come. -/
lemma firstFailure?_append (fails : Statement → Bool) (first rest : List Command) :
    firstFailure? fails (first ++ rest) = (firstFailure? fails first).or (firstFailure? fails rest) :=
  List.findSome?_append

/-- The first of two failures decides. -/
lemma elim_or {α : Type} (first second : Option Failure) (x : α) (f : Failure → α) :
    (first.or second).elim x f = first.elim (second.elim x f) f := by
  cases first <;> rfl

namespace Database

/-- The answer of a statement is passed on, unless its command fails. -/
lemma bind_run {α β : Type} (db : Database) (cmd : Command) (answer : α) (f : α → Except Failure β) :
    (db.run cmd.statement answer >>= f) = (cmd.failure? db.fails).elim (f answer) .error := by
  rw [run, Command.failure?]
  split <;> rfl

/-- So are the tables into which messages are stored, unless one of the commands fails. -/
lemma bind_saveMessages {α : Type} (db : Database) (conversation : String) (t : Tables) (ms : List Message)
    (f : Tables → Except Failure α) :
    (db.saveMessages conversation t ms >>= f) =
      (firstFailure? db.fails (ms.map fun m =>
        .write ⟨.saveMessage m.id, fun t => t.saveMessage conversation m⟩)).elim
        (f (t.filled conversation ms)) .error := by
  induction ms generalizing t with
  | nil => rfl
  | cons m rest ih =>
    rw [saveMessages, bind_assoc, List.map_cons, firstFailure?_cons, elim_or]
    refine (db.bind_run (.write ⟨.saveMessage m.id, fun t => t.saveMessage conversation m⟩) _ _).trans ?_
    exact congrArg (Option.elim _ · _) (ih (t.saveMessage conversation m))

/-- Replacing a history fails with the first command of the transaction that fails. -/
lemma replaceHistory_eq (db : Database) (c : Summary) (request : SaveRequest) (now : Int64) :
    db.replaceHistory c request now =
      (firstFailure? db.fails (transaction (replacement c request now))).elim
        (.ok { db with tables := db.tables.saved c request now }) .error := by
  have hcommands : transaction (replacement c request now) =
      .begin :: .write ⟨.saveConversation, fun t => t.saveConversation c request now⟩ ::
        .write ⟨.pruneMessages, fun t => t.pruneMessages c.id request.history.messages⟩ ::
          ((request.history.messages.values.map fun m =>
            .write ⟨.saveMessage m.id, fun t => t.saveMessage c.id m⟩) ++ [.commit]) := by
    rw [transaction, replacement, List.map_cons, List.map_cons, List.map_map]
    rfl
  simp only [hcommands, firstFailure?_cons, firstFailure?_append, elim_or]
  refine (db.bind_run .begin _ _).trans (congrArg (Option.elim _ · _) ?_)
  refine (db.bind_run (.write ⟨.saveConversation, fun t => t.saveConversation c request now⟩) _ _).trans
    (congrArg (Option.elim _ · _) ?_)
  refine (db.bind_run
    (.write ⟨.pruneMessages, fun t => t.pruneMessages c.id request.history.messages⟩) _ _).trans
    (congrArg (Option.elim _ · _) ?_)
  refine (db.bind_saveMessages _ _ _ _).trans (congrArg (Option.elim _ · _) ?_)
  exact db.bind_run .commit _ _

/-- A save prepares, and then replaces the history. -/
lemma save_eq_prepare (db : Database) (conversation : String) (request : SaveRequest) (now : Int64) :
    db.save conversation request now =
      (db.prepare conversation request now >>= fun c => db.replaceHistory c request now) := by
  rw [save, prepare]
  split
  · rfl
  · cases validate request.history with
    | error e => rfl
    | ok _ => cases db.conversation? conversation <;> rfl

/-- A conversation is prepared only for a valid history, and under its own id. -/
lemma prepare_eq_ok {db : Database} (h : db.prepare conversation request now = .ok c) :
    Valid request.history ∧ c.id = conversation := by
  have hblank : ¬ Text.isBlank conversation := by
    intro hblank
    rw [prepare, if_pos hblank] at h
    cases h
  rw [prepare, if_neg hblank] at h
  obtain ⟨_, hvalid, h⟩ := exists_of_bind h
  obtain ⟨found, hfound, h⟩ := exists_of_bind h
  refine ⟨validate_eq_ok_iff.mp hvalid, ?_⟩
  obtain rfl := Except.ok.inj h
  rcases conversation?_cases hfound with ⟨-, rfl⟩ | ⟨row, c, -, hc, rfl⟩
  · rfl
  · exact id_of_summary? hc

end Database

/-- The writes that replace a history make the tables what they are after a save. -/
lemma foldl_replacement (t : Tables) (c : Summary) (request : SaveRequest) (now : Int64) :
    (replacement c request now).foldl (fun t w => w.change t) t = t.saved c request now := by
  rw [replacement, List.foldl_cons, List.foldl_cons, List.foldl_map]
  rfl

/-- A save that is prepared either fails and changes nothing, or stores all there is to be stored. -/
lemma Connection.save_cases (fails : Statement → Bool) (t : Tables) (conversation : String)
    (request : SaveRequest) (now : Int64) :
    (∃ e, Database.save ⟨t, fails⟩ conversation request now = .error e ∧
      Connection.save fails ⟨t, none⟩ conversation request now = (.error e, ⟨t, none⟩)) ∨
    ∃ c, Valid request.history ∧ c.id = conversation ∧
      Database.save ⟨t, fails⟩ conversation request now = .ok ⟨t.saved c request now, fails⟩ ∧
      Connection.save fails ⟨t, none⟩ conversation request now =
        (.ok (), ⟨t.saved c request now, none⟩) := by
  rw [Connection.save, Database.save_eq_prepare]
  cases hprepare : Database.prepare ⟨t, fails⟩ conversation request now with
  | error e => exact Or.inl ⟨e, rfl, rfl⟩
  | ok c =>
    have hreplace : (Except.ok c >>= fun c => Database.replaceHistory ⟨t, fails⟩ c request now) = _ :=
      Database.replaceHistory_eq ⟨t, fails⟩ c request now
    dsimp only
    rw [hreplace, Connection.run_transaction, foldl_replacement]
    cases firstFailure? fails (transaction (replacement c request now)) with
    | some e => exact Or.inl ⟨e, rfl, rfl⟩
    | none =>
      obtain ⟨hvalid, hc⟩ := Database.prepare_eq_ok hprepare
      exact Or.inr ⟨c, hvalid, hc, rfl, rfl⟩

/-! ### Answers -/

/-- From both tables the server answers for the conversation alike, whichever statements fail. -/
def AnswersAlike (t t' : Tables) (conversation : String) : Prop :=
  ∀ fails,
    Database.outline ⟨t, fails⟩ conversation = Database.outline ⟨t', fails⟩ conversation ∧
    Database.snapshot ⟨t, fails⟩ conversation = Database.snapshot ⟨t', fails⟩ conversation ∧
    ∀ ids, Database.bodies ⟨t, fails⟩ conversation ids = Database.bodies ⟨t', fails⟩ conversation ids

/-- The answers for a conversation come from its own rows. -/
lemma answersAlike_of_rows (hrow : t.conversations[conversation]? = t'.conversations[conversation]?)
    (hmessages : t.messagesOf conversation = t'.messagesOf conversation) :
    AnswersAlike t t' conversation := by
  intro fails
  have hconversation : Database.conversation ⟨t, fails⟩ conversation =
      Database.conversation ⟨t', fails⟩ conversation := by
    rw [Database.conversation, Database.conversation, Database.conversation?, Database.conversation?]
    dsimp only
    rw [hrow]
    rfl
  have htree : Database.tree ⟨t, fails⟩ conversation = Database.tree ⟨t', fails⟩ conversation := by
    rw [Database.tree, Database.tree, hconversation, Database.messages, Database.messages,
      Database.current, Database.current]
    dsimp only
    rw [hrow, hmessages]
    rfl
  refine ⟨?_, ?_, fun ids => ?_⟩
  · rw [Database.outline, Database.outline, htree]
  · rw [Database.snapshot, Database.snapshot, htree]
  · rw [Database.bodies, Database.bodies, hconversation, Database.messagesWith, Database.messagesWith]
    dsimp only
    rw [hmessages]
    rfl

/-- Whatever is stored, whatever is to be saved and whichever statements fail: a save that is carried out
statement by statement comes to what `Database.save` says, and it ends with no transaction open. If it fails,
the server lists the same conversations and answers for each of them as before. If it succeeds, the messages
of the conversation are exactly those of the history, also when they are read again, and no other conversation
is changed. -/
theorem save_atomic (t : Tables) (fails : Statement → Bool) (conversation : String)
    (request : SaveRequest) (now : Int64) :
    let outcome := Connection.save fails ⟨t, none⟩ conversation request now
    let after := outcome.2.stored
    outcome = (match Database.save ⟨t, fails⟩ conversation request now with
      | .ok db => (.ok (), ⟨db.tables, none⟩)
      | .error e => (.error e, ⟨t, none⟩)) ∧
    (∀ e, outcome.1 = .error e →
      (∀ fails', Database.conversations ⟨after, fails'⟩ = Database.conversations ⟨t, fails'⟩) ∧
      ∀ other, AnswersAlike after t other) ∧
    (outcome.1 = .ok () →
      after.messagesOf conversation = request.history.messages.values.map (fun m => (m.id, rowOf m)) ∧
      (∀ fails', fails' (.findMessages conversation) = false →
        Database.messages ⟨after, fails'⟩ conversation =
          .ok (request.history.messages.values.map stored)) ∧
      ∀ other, other ≠ conversation →
        after.conversations[other]? = t.conversations[other]? ∧
        after.messagesOf other = t.messagesOf other ∧ AnswersAlike after t other) := by
  intro outcome after
  -- A save that fails is rolled back, whichever statement it was that failed, and one that succeeds is committed.
  rcases Connection.save_cases fails t conversation request now with
    ⟨e, hsave, houtcome⟩ | ⟨c, hvalid, rfl, hsave, houtcome⟩
  · have hafter : after = t := congrArg (fun o => o.2.stored) houtcome
    refine ⟨by rw [hsave]; exact houtcome, fun e' _ => ?_, fun hok => ?_⟩
    · rw [hafter]
      exact ⟨fun _ => rfl, fun other => answersAlike_of_rows rfl rfl⟩
    · rw [show outcome.1 = .error e from congrArg Prod.fst houtcome] at hok
      cases hok
  · have hafter : after = t.saved c request now := congrArg (fun o => o.2.stored) houtcome
    refine ⟨by rw [hsave]; exact houtcome, fun e herror => ?_, fun _ => ?_⟩
    · rw [show outcome.1 = .ok () from congrArg Prod.fst houtcome] at herror
      cases herror
    · rw [hafter]
      have hmessages : (t.saved c request now).messagesOf c.id =
          request.history.messages.values.map fun m => (m.id, rowOf m) :=
        messagesOf_eq_map_rowOf hvalid.keyed fun id => by
          rw [Tables.getElem?_messages_saved hvalid.keyed, if_pos rfl]
      refine ⟨hmessages, fun fails' hread => ?_, fun other hother => ?_⟩
      · rw [Database.messages, Database.run_of_fails hread, hmessages]
        exact Database.readMessages_rowOf _
      · have hrow : (t.saved c request now).conversations[other]? = t.conversations[other]? := by
          rw [Tables.getElem?_conversations_saved, if_neg hother]
        have hrows : (t.saved c request now).messagesOf other = t.messagesOf other :=
          messagesOf_congr fun id => by
            rw [Tables.getElem?_messages_saved hvalid.keyed, if_neg hother]
        exact ⟨hrow, hrows, answersAlike_of_rows hrow hrows⟩

/-- Two conversations in which the same was asked. -/
def askedTwice : Tables :=
  Tables.afterAll {} [⟨"c", { history := asked }, 1, fun _ => false⟩,
    ⟨"d", { history := asked }, 2, fun _ => false⟩]

/-- The answer is saved to one of the conversations. If storing it fails, after the question was stored again,
nothing has changed; otherwise the conversation has both messages, and the other one is as it was. -/
theorem save_atomic_answered :
    let failing := Connection.save (fun s => s = .saveMessage "b") ⟨askedTwice, none⟩ "c"
      { history := answered } 3
    let working := Connection.save (fun _ => false) ⟨askedTwice, none⟩ "c" { history := answered } 3
    failing.1 = .error (.query "Failed to save message") ∧
      AnswersAlike failing.2.stored askedTwice "c" ∧
      working.1 = .ok () ∧
      working.2.stored.messagesOf "c" = answered.messages.values.map (fun m => (m.id, rowOf m)) ∧
      AnswersAlike working.2.stored askedTwice "d" := by
  intro failing working
  have herror : failing.1 = .error (.query "Failed to save message") := by decide +kernel
  have hok : working.1 = .ok () := by decide +kernel
  obtain ⟨-, hfailing, -⟩ :=
    save_atomic askedTwice (fun s => s = .saveMessage "b") "c" { history := answered } 3
  obtain ⟨-, -, hworking⟩ := save_atomic askedTwice (fun _ => false) "c" { history := answered } 3
  obtain ⟨hmessages, -, hother⟩ := hworking hok
  exact ⟨herror, (hfailing _ herror).2 "c", hok, hmessages, (hother "d" (by decide)).2.2⟩

end DialogueSync.Server
