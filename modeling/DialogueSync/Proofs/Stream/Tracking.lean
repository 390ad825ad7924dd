import DialogueSync.Proofs.IdMap
import DialogueSync.Proofs.Stream.Figures

/-!
# Following responses

Several responses are in flight at a time, and what happens to them comes mixed up. A tracker keeps the messages of
all of them, and the timings of those in flight.

What is kept of one response depends only on what happened to that one (`response_run`). As long as it is not
finished its message gathers the increments (`gathers_gather`); once it is finished, and not started again, it is over:
increments are ignored, and finishing it changes nothing.
-/

namespace DialogueSync.Streams

/-! ### What happens to responses -/

/-- What happens to a response. -/
inductive Happening where
  /-- The request for it is sent. -/
  | start (sentAt : Int64)
  /-- An increment of it comes. -/
  | apply (d : Delta) (now : Int64)
  /-- It is finished. -/
  | finish (pricing : Option Pricing) (now : Int64)
  /-- It is given up. -/
  | forget
deriving DecidableEq

namespace Happening

/-- Whether the request is sent. -/
def isStart : Happening → Bool
  | start _ => true
  | _ => false

/-- Whether the response is finished. -/
def isFinish : Happening → Bool
  | finish _ _ => true
  | _ => false

/-- The increment that comes, if one does. -/
def delta? : Happening → Option Delta
  | apply d _ => some d
  | _ => none

/-- When content comes, if it does. -/
def arrival? : Happening → Option Int64
  | apply d now => d.chunk?.map fun _ => now
  | _ => none

end Happening

/-- Something that happens to the response with an id. -/
structure Event where
  /-- The id of the response. -/
  id : String
  /-- What happens to it. -/
  what : Happening
deriving DecidableEq

/-- What a tracker answers. -/
inductive Reply where
  /-- Nothing. -/
  | none
  /-- What became of an increment. -/
  | outcome (outcome : Outcome)
  /-- Whether a response was finished just now. -/
  | finished (justNow : Bool)
deriving DecidableEq

/-- The messages of the responses, and the timings of those in flight. -/
structure Tracker where
  /-- The messages by their ids. -/
  messages : IdMap Message
  /-- Every message stands under its own id. -/
  keyed : IdMap.Keyed Message.id messages
  /-- The timings by the ids of the messages. -/
  streams : Streams := ∅

/-- What is kept of one response: its message, and its timing while it is in flight. -/
structure Response where
  /-- The message, if there is one. -/
  message : Option Message
  /-- The timing, if the response is in flight. -/
  timing : Option Timing
deriving DecidableEq

/-- What happens to the response with an id, in its order. -/
def own (id : String) (events : List Event) : List Happening :=
  (events.filter fun e => e.id = id).map Event.what

/-- The increments that come, in their order. -/
def increments (hs : List Happening) : List Delta :=
  hs.filterMap Happening.delta?

namespace Tracker

variable (t : Tracker)

/-- What is kept of the response with an id. -/
def response (id : String) : Response :=
  ⟨t.messages[id]?, t.streams[id]?⟩

/-- With a message put back, and other timings. -/
def putBack (m : Message) (streams : Streams) : Tracker where
  messages := t.messages.insert m.id m
  keyed := IdMap.keyed_insert t.keyed m
  streams := streams

/-- What the tracker answers when something happens, and what it keeps then. Increments and ends of responses without a
message are passed over. -/
def step (e : Event) : Reply × Tracker :=
  match e.what with
  | .start sentAt => (.none, { t with streams := t.streams.start e.id sentAt })
  | .forget => (.none, { t with streams := t.streams.forget e.id })
  | .apply d now =>
    match t.messages[e.id]? with
    | none => (.none, t)
    | some m =>
      let (outcome, m, streams) := t.streams.apply m d now
      (.outcome outcome, t.putBack m streams)
  | .finish pricing now =>
    match t.messages[e.id]? with
    | none => (.none, t)
    | some m =>
      let (justNow, m, streams) := t.streams.finish m pricing now
      (.finished justNow, t.putBack m streams)

/-- What the tracker keeps after several things happened. -/
def run (events : List Event) : Tracker :=
  events.foldl (fun t e => (t.step e).2) t

end Tracker

/-- What is kept of a response after something happened to it. -/
def Response.after (r : Response) : Happening → Response
  | .start sentAt => { r with timing := some { sentAt := sentAt } }
  | .forget => { r with timing := none }
  | .apply d now =>
    match r.message with
    | none => r
    | some m => if m.done then r else ⟨some (d.applyTo m), some (timingAfter r.timing d now)⟩
  | .finish pricing now =>
    match r.message with
    | none => r
    | some m =>
      if m.done && r.timing.isNone then r else ⟨some (complete m r.timing pricing now), none⟩

/-- What is kept of a response after several things happened to it. -/
def Response.afterAll (r : Response) (hs : List Happening) : Response :=
  hs.foldl Response.after r

/-! ### Each response for itself -/

section Own

variable {id : String} {e : Event}

/-- An event for a response is one of its own. -/
lemma own_cons_self (e : Event) (events : List Event) : own e.id (e :: events) = e.what :: own e.id events := by
  simp [own]

lemma own_cons_of_ne (h : e.id ≠ id) (events : List Event) : own id (e :: events) = own id events := by
  simp [own, h]

/-- What happens to other responses can be left out. -/
lemma own_filter (id : String) (events : List Event) :
    own id (events.filter fun e => e.id = id) = own id events := by
  simp [own]

end Own

namespace Tracker

/-- The first event comes to what the tracker is, and the others to what comes of it. -/
lemma run_cons (t : Tracker) (e : Event) (events : List Event) :
    t.run (e :: events) = (t.step e).2.run events :=
  rfl

variable {t : Tracker} {id : String} {m : Message} {streams : Streams}

/-- Nothing changes when a message is put back as it was. -/
lemma putBack_self (h : t.messages[m.id]? = some m) : t.putBack m t.streams = t := by
  have hmessages : t.messages.insert m.id m = t.messages := by
    refine Std.ExtTreeMap.ext_getElem? fun {x} => ?_
    rw [Std.ExtTreeMap.getElem?_insert]
    split
    next hx => rw [← Std.compare_eq_iff_eq.mp hx, h]
    next => rfl
  simp only [putBack, hmessages]

/-- What is put back is the message of the response, with its timing. -/
lemma response_putBack_self : (t.putBack m streams).response m.id = ⟨some m, streams[m.id]?⟩ := by
  simp [putBack, response]

/-- Putting back a message leaves alone what is kept of another response. -/
lemma response_putBack (hid : m.id ≠ id) (hstreams : streams[id]? = t.streams[id]?) :
    (t.putBack m streams).response id = t.response id := by
  simp [putBack, response, Std.ExtTreeMap.getElem?_insert, hid, hstreams]

/-! What a tracker does about a response whose message it has, case by case. -/

/-- An increment of a complete message is ignored. -/
lemma step_apply_of_done (h : t.messages[m.id]? = some m) (hdone : m.done = true) (d : Delta) (now : Int64) :
    t.step ⟨m.id, .apply d now⟩ = (.outcome .ignored, t) := by
  simp only [step, h, Streams.apply_of_done hdone, putBack_self h]

/-- An increment of a message that is not complete is applied, and the response is in flight then. -/
lemma step_apply_of_open (h : t.messages[m.id]? = some m) (hopen : m.done = false) (d : Delta) (now : Int64) :
    t.step ⟨m.id, .apply d now⟩ =
      (.outcome (if d.done then .finished else .applied),
        t.putBack (d.applyTo m) (t.streams.insert m.id (timingAfter t.streams[m.id]? d now))) := by
  simp only [step, h, Streams.apply, hopen, Bool.false_eq_true, if_false]

/-- A response that is complete and not in flight is not finished again. -/
lemma step_finish_of_over (h : t.messages[m.id]? = some m) (hdone : m.done = true)
    (hidle : t.streams[m.id]? = none) (pricing : Option Pricing) (now : Int64) :
    t.step ⟨m.id, .finish pricing now⟩ = (.finished false, t) := by
  simp only [step, h, Streams.finish, Streams.isActive, Std.ExtTreeMap.contains_eq_isSome_getElem?, hdone, hidle,
    Option.isSome_none, Bool.not_false, Bool.and_true, if_true, putBack_self h]

/-- A response that is not complete, or in flight, is finished. -/
lemma step_finish_of_not_over (h : t.messages[m.id]? = some m)
    (hnot : ¬ (m.done = true ∧ t.streams[m.id]? = none)) (pricing : Option Pricing) (now : Int64) :
    t.step ⟨m.id, .finish pricing now⟩ =
      (.finished true,
        t.putBack (complete m t.streams[m.id]? pricing now) (t.streams.erase m.id)) := by
  have hcheck : ¬ (m.done && !t.streams.isActive m.id) = true := by
    rw [Streams.isActive, Std.ExtTreeMap.contains_eq_isSome_getElem?, Bool.and_eq_true, Bool.not_eq_true',
      Option.isSome_eq_false_iff, Option.isNone_iff_eq_none]
    exact hnot
  simp only [step, h, Streams.finish, if_neg hcheck]

/-- What happens to a response changes what is kept of it as `Response.after` says. -/
lemma response_step_self (t : Tracker) (id : String) (what : Happening) :
    (t.step ⟨id, what⟩).2.response id = (t.response id).after what := by
  cases what with
  | start sentAt => simp [step, response, Response.after, Streams.start]
  | forget => simp [step, response, Response.after, Streams.forget]
  | apply d now =>
    cases hm : t.messages[id]? with
    | none => simp [step, response, Response.after, hm]
    | some m =>
      obtain rfl := t.keyed id m hm
      cases hdone : m.done with
      | true => simp only [step_apply_of_done hm hdone, response, Response.after, hm, hdone, if_true]
      | false =>
        rw [step_apply_of_open hm hdone]
        refine response_putBack_self.trans ?_
        simp [response, Response.after, hm, hdone, Delta.applyTo]
  | finish pricing now =>
    cases hm : t.messages[id]? with
    | none => simp [step, response, Response.after, hm]
    | some m =>
      obtain rfl := t.keyed id m hm
      -- A complete message is finished once more if its response has been started again.
      by_cases hover : m.done = true ∧ t.streams[m.id]? = none
      · rw [step_finish_of_over hm hover.1 hover.2]
        simp [response, Response.after, hm, hover]
      · rw [step_finish_of_not_over hm hover]
        refine response_putBack_self.trans ?_
        have hcheck : ¬ (m.done && t.streams[m.id]?.isNone) = true := by
          rwa [Bool.and_eq_true, Option.isNone_iff_eq_none]
        simp only [response, Response.after, hm, if_neg hcheck]
        simp [complete]

/-- What happens to a response leaves alone what is kept of the others. -/
lemma response_step_of_ne {e : Event} (h : e.id ≠ id) (t : Tracker) :
    (t.step e).2.response id = t.response id := by
  obtain ⟨id', what⟩ := e
  cases what with
  | start sentAt => simp [step, response, Streams.start, Std.ExtTreeMap.getElem?_insert, h]
  | forget => simp [step, response, Streams.forget, Std.ExtTreeMap.getElem?_erase, h]
  | apply d now =>
    cases hm : t.messages[id']? with
    | none => simp [step, hm]
    | some m =>
      obtain rfl := t.keyed id' m hm
      cases hdone : m.done with
      | true => rw [step_apply_of_done hm hdone]
      | false =>
        rw [step_apply_of_open hm hdone]
        exact response_putBack h (by simp [Std.ExtTreeMap.getElem?_insert, h])
  | finish pricing now =>
    cases hm : t.messages[id']? with
    | none => simp [step, hm]
    | some m =>
      obtain rfl := t.keyed id' m hm
      by_cases hover : m.done = true ∧ t.streams[m.id]? = none
      · rw [step_finish_of_over hm hover.1 hover.2]
      · rw [step_finish_of_not_over hm hover]
        exact response_putBack h (by simp [Std.ExtTreeMap.getElem?_erase, h])

/-- What is kept of a response depends only on what happened to it. -/
lemma response_run (t : Tracker) (id : String) (events : List Event) :
    (t.run events).response id = (t.response id).afterAll (own id events) := by
  induction events generalizing t with
  | nil => rfl
  | cons e rest ih =>
    rw [run_cons, ih]
    by_cases he : e.id = id
    · subst he
      rw [response_step_self, own_cons_self]
      rfl
    · rw [response_step_of_ne he, own_cons_of_ne he]

end Tracker

/-! ### Gathering increments -/

/-- The message with several increments applied, one after the other. -/
def gather (m : Message) (ds : List Delta) : Message :=
  ds.foldl (fun m d => d.applyTo m) m

/-- A message that is not complete comes about from another one by increments: the content is appended, and of errors
and figures those that were reported last count. -/
structure Gathers (m : Message) (ds : List Delta) (m' : Message) : Prop where
  /-- The content is appended, in the order in which it came. -/
  content : m'.content = m.content ++ String.join (ds.filterMap Delta.chunk?)
  /-- The last error counts. -/
  error : m'.error = (ds.filterMap Delta.error).getLast?.or m.error
  /-- The last report of each figure counts. -/
  figure (f : Figure) : m'.figure f = (ds.filterMap (Delta.figure · f)).getLast?.or (m.figure f)
  /-- More increments may come. -/
  notDone : m'.done = false

/-- What each increment either sets or leaves alone is as it was set last. -/
lemma read_gather {α : Type} (read : Message → Option α) (set : Delta → Option α)
    (hstep : ∀ d m, read (d.applyTo m) = (set d).or (read m)) (m : Message) (ds : List Delta) :
    read (gather m ds) = (ds.filterMap set).getLast?.or (read m) := by
  induction ds generalizing m with
  | nil => rfl
  | cons d rest ih =>
    refine (ih (d.applyTo m)).trans ?_
    rw [hstep]
    cases hd : set d with
    | none => rw [List.filterMap_cons_none hd, Option.none_or]
    | some v => rw [List.filterMap_cons_some hd, List.getLast?_cons, Option.some_or, Option.some_or, Option.or_some]

/-- The content grows by the texts of the increments. -/
lemma content_gather (m : Message) (ds : List Delta) :
    (gather m ds).content = m.content ++ String.join (ds.filterMap Delta.chunk?) := by
  induction ds generalizing m with
  | nil => simp [gather]
  | cons d rest ih =>
    refine (ih (d.applyTo m)).trans ?_
    cases hd : d.chunk? with
    | none => simp [Delta.applyTo, hd]
    | some chunk => simp [Delta.applyTo, hd, String.append_assoc]

/-- An incomplete message gathers what comes. -/
lemma gathers_gather {m : Message} (hopen : m.done = false) (ds : List Delta) : Gathers m ds (gather m ds) where
  content := content_gather m ds
  error := read_gather Message.error Delta.error (fun _ _ => rfl) m ds
  figure f := read_gather (Message.figure · f) (Delta.figure · f) (fun d m => figure_applyTo d m f) m ds
  notDone := List.foldlRecOn (motive := fun m : Message => m.done = false) ds _ hopen fun _ h _ _ => h

namespace Response

variable {r : Response} {m : Message} {hs : List Happening}

/-- As long as a response is not finished, its message gathers the increments. -/
lemma message_afterAll (hm : r.message = some m) (hopen : m.done = false)
    (hfinish : ∀ h ∈ hs, h.isFinish = false) :
    (r.afterAll hs).message = some (gather m (increments hs)) := by
  induction hs generalizing r m with
  | nil => exact hm
  | cons h rest ih =>
    obtain ⟨hh, hrest⟩ := List.forall_mem_cons.mp hfinish
    cases h with
    | start sentAt => exact ih hm hopen hrest
    | forget => exact ih hm hopen hrest
    | apply d now =>
      refine ih (m := d.applyTo m) ?_ hopen hrest
      simp [after, hm, hopen]
    | finish pricing now => cases hh

/-- While nothing but increments comes, the request stays sent when it was, and the first content makes the first
token. -/
lemma timing_afterAll {sent : Int64} {first : Option Int64} (hm : r.message = some m) (hopen : m.done = false)
    (htiming : r.timing = some ⟨sent, first⟩) (hincrements : ∀ h ∈ hs, h.delta?.isSome) :
    (r.afterAll hs).timing = some ⟨sent, first.or (hs.findSome? Happening.arrival?)⟩ := by
  induction hs generalizing r m first with
  | nil => simpa [afterAll] using htiming
  | cons h rest ih =>
    obtain ⟨hh, hrest⟩ := List.forall_mem_cons.mp hincrements
    cases h with
    | start sentAt => cases hh
    | forget => cases hh
    | finish pricing now => cases hh
    | apply d now =>
      have hafter : r.after (.apply d now) = ⟨some (d.applyTo m), some (timingAfter r.timing d now)⟩ := by
        simp [after, hm, hopen]
      have htiming' : (r.after (.apply d now)).timing =
          some ⟨sent, first.or (Happening.arrival? (.apply d now))⟩ := by
        rw [hafter, htiming]
        cases hd : d.chunk? <;> simp [timingAfter, Happening.arrival?, hd]
      refine (ih (m := d.applyTo m) (by rw [hafter]) hopen htiming' hrest).trans ?_
      rw [Option.or_assoc, List.findSome?_cons]
      cases Happening.arrival? (.apply d now) <;> rfl

/-- The request was sent last at `sent`, the response was not given up since then, and its first content came at
`first`. -/
def Began (hs : List Happening) (sent first : Int64) : Prop :=
  ∃ earlier later, hs = earlier ++ .start sent :: later ∧
    (∀ h ∈ later, h.isStart = false ∧ h ≠ .forget) ∧ later.findSome? Happening.arrival? = some first

/-- The timing of a response that began is the one that it began with. -/
lemma timing_afterAll_of_began {sent first : Int64} (hm : r.message = some m) (hopen : m.done = false)
    (hfinish : ∀ h ∈ hs, h.isFinish = false) (hbegan : Began hs sent first) :
    (r.afterAll hs).timing = some ⟨sent, some first⟩ := by
  obtain ⟨earlier, later, rfl, hlater, hfirst⟩ := hbegan
  obtain ⟨hearlier, hrest⟩ := List.forall_mem_append.mp hfinish
  have hmessage := message_afterAll hm hopen hearlier
  -- After the start nothing is left but increments, since the response is neither finished nor given up.
  have hincrements : ∀ h ∈ later, h.delta?.isSome := by
    intro h hh
    cases h with
    | apply d now => rfl
    | start sentAt => cases (hlater _ hh).1
    | forget => exact absurd rfl (hlater _ hh).2
    | finish pricing now => cases hrest _ (List.mem_cons_of_mem _ hh)
  have hrun : r.afterAll (earlier ++ .start sent :: later) =
      ((r.afterAll earlier).after (.start sent)).afterAll later := by
    simp only [afterAll, List.foldl_append, List.foldl_cons]
  have hbegun : ((r.afterAll earlier).after (.start sent)).timing = some ⟨sent, none⟩ := rfl
  rw [hrun, timing_afterAll (r := (r.afterAll earlier).after (.start sent)) hmessage
    (gathers_gather hopen _).notDone hbegun hincrements, Option.none_or, hfirst]

/-- A response is over when its message is complete and it is not in flight. -/
def IsOver (r : Response) : Prop :=
  r.timing = none ∧ ∃ m, r.message = some m ∧ m.done = true

/-- A response that is over stays so unless it is started again. -/
lemma IsOver.afterAll (h : r.IsOver) (hstart : ∀ h ∈ hs, h.isStart = false) : (r.afterAll hs).IsOver := by
  induction hs generalizing r with
  | nil => exact h
  | cons what rest ih =>
    obtain ⟨hwhat, hrest⟩ := List.forall_mem_cons.mp hstart
    refine ih ?_ hrest
    obtain ⟨htiming, m, hm, hdone⟩ := h
    cases what with
    | start sentAt => cases hwhat
    | forget => exact ⟨rfl, m, hm, hdone⟩
    | apply d now => simpa [after, hm, hdone] using ⟨htiming, m, hm, hdone⟩
    | finish pricing now => simpa [after, hm, hdone, htiming] using ⟨htiming, m, hm, hdone⟩

end Response

/-! ### A response from its beginning to its end -/

/-- Nobody gives a throughput or a time: neither the message, nor an increment. -/
def Untimed (m : Message) (ds : List Delta) : Prop :=
  ∀ f ∈ [Figure.tokensPerSecond, .elapsed, .timeToFirstToken], m.figure f = none ∧ ∀ d ∈ ds, d.figure f = none

/-- The message `m'` into which `m` turned by what happened is made complete at `now`. -/
structure Completes (hs : List Happening) (now : Int64) (m m' ended : Message) : Prop where
  /-- Nothing more comes. -/
  done : ended.done = true
  /-- The content stays. -/
  content : ended.content = m'.content
  /-- The error stays. -/
  error : ended.error = m'.error
  /-- The times are measured where nobody gives them. -/
  times {sent first : Int64} (hbegan : Response.Began hs sent first) (huntimed : Untimed m (increments hs)) :
    ended.figure .timeToFirstToken = some (first - sent) ∧ ended.figure .elapsed = some (max (now - first) 0)

/-- A figure is not known if no increment reports it. -/
lemma Gathers.figure_eq_none {m m' : Message} {ds : List Delta} {f : Figure} (h : Gathers m ds m')
    (hm : m.figure f = none) (hds : ∀ d ∈ ds, d.figure f = none) : m'.figure f = none := by
  rw [h.figure, hm, List.filterMap_eq_nil_iff.mpr hds]
  rfl

/-- The end of a response makes it complete with what has been gathered. -/
lemma completes_complete {hs : List Happening} {m m' : Message} {timing : Option Timing}
    (hgathers : Gathers m (increments hs) m')
    (htiming : ∀ sent first, Response.Began hs sent first → timing = some ⟨sent, some first⟩)
    (pricing : Option Pricing) (now : Int64) :
    Completes hs now m m' (complete m' timing pricing now) where
  done := rfl
  content := rfl
  error := rfl
  times {sent first} hbegan huntimed := by
    obtain ⟨hm, hds⟩ := huntimed .tokensPerSecond (by simp)
    have hrate : (m'.usage.getD {}).tokensPerSecond = none := hgathers.figure_eq_none hm hds
    have htiming := htiming sent first hbegan
    rw [figure_complete, figure_complete]
    exact ⟨Usage.figure_derive_of_measured (.timeToFirstToken hrate htiming) pricing,
      Usage.figure_derive_of_measured (.elapsed hrate htiming) pricing⟩

namespace Tracker

/-- A response is over: its increments are ignored, it is not finished again, and nothing changes by either. -/
structure Over (t : Tracker) (id : String) : Prop where
  /-- Increments are ignored. -/
  ignores (d : Delta) (now : Int64) : t.step ⟨id, .apply d now⟩ = (.outcome .ignored, t)
  /-- It is not finished again. -/
  notAgain (pricing : Option Pricing) (now : Int64) : t.step ⟨id, .finish pricing now⟩ = (.finished false, t)

/-- A response that is over by itself is over in the tracker. -/
lemma over_of_isOver {t : Tracker} {id : String} (h : (t.response id).IsOver) : t.Over id := by
  obtain ⟨hidle, m, hm, hdone⟩ := h
  obtain rfl := t.keyed id m hm
  exact ⟨step_apply_of_done hm hdone, step_finish_of_over hm hdone hidle⟩

/-- Until its response is finished, a message that is not complete gathers the increments. -/
lemma message_run {t : Tracker} {id : String} {m : Message} (hm : t.messages[id]? = some m) (hopen : m.done = false)
    {before : List Event} (hfinish : ∀ h ∈ own id before, h.isFinish = false) :
    (t.run before).messages[id]? = some (gather m (increments (own id before))) :=
  (congrArg Response.message (response_run t id before)).trans (Response.message_afterAll hm hopen hfinish)

/-- A message that is not complete is made complete when its response is finished, and the response is not in flight
then. -/
lemma finish_of_open {t : Tracker} {id : String} {m : Message} (h : t.messages[id]? = some m)
    (hopen : m.done = false) (pricing : Option Pricing) (now : Int64) :
    ∃ after, t.step ⟨id, .finish pricing now⟩ = (.finished true, after) ∧
      after.response id = ⟨some (complete m t.streams[id]? pricing now), none⟩ := by
  obtain rfl := t.keyed id m h
  refine ⟨_, step_finish_of_not_over h (fun hover => ?_) pricing now, ?_⟩
  · cases hopen.symm.trans hover.1
  · refine response_putBack_self.trans ?_
    simp [complete]

/-- What is kept of a response is what would be kept of it if nothing had happened to the others. A message that is not
complete gathers the increments until the response is finished for the first time. By that it is made complete, and
unless the response is started again it is over. -/
theorem tracks_each_response (t : Tracker) (id : String) :
    (∀ events, (t.run events).response id = (t.run (events.filter fun e => e.id = id)).response id) ∧
    ∀ m, t.messages[id]? = some m → m.done = false →
      ∀ before, (∀ h ∈ own id before, h.isFinish = false) →
        ∃ m', (t.run before).messages[id]? = some m' ∧ Gathers m (increments (own id before)) m' ∧
          ∀ pricing now, ∃ ended after,
            (t.run before).step ⟨id, .finish pricing now⟩ = (.finished true, after) ∧
              after.messages[id]? = some ended ∧ Completes (own id before) now m m' ended ∧
              ∀ later, (∀ h ∈ own id later, h.isStart = false) → (after.run later).Over id := by
  constructor
  · intro events
    rw [response_run, response_run, own_filter]
  · intro m hm hopen before hfinish
    have hm' := message_run hm hopen hfinish
    have hgathers := gathers_gather hopen (increments (own id before))
    refine ⟨_, hm', hgathers, fun pricing now => ?_⟩
    obtain ⟨after, hstep, hafter⟩ := finish_of_open hm' hgathers.notDone pricing now
    have hended := congrArg Response.message hafter
    refine ⟨_, after, hstep, hended, completes_complete hgathers (fun sent first hbegan => ?_) pricing now, ?_⟩
    · exact (congrArg Response.timing (response_run t id before)).trans
        (Response.timing_afterAll_of_began hm hopen hfinish hbegan)
    · intro later hstart
      apply over_of_isOver
      rw [response_run]
      exact Response.IsOver.afterAll ⟨congrArg Response.timing hafter, _, hended, rfl⟩ hstart

/-- A tracker with two responses that wait for their content. -/
def awaiting : Tracker where
  messages := IdMap.collect Message.id [.await "model" "a" 1, .await "model" "b" 1]
  keyed := IdMap.keyed_collect _

/-- The response waits for its first increment. -/
lemma response_awaiting : awaiting.response "a" = ⟨some (.await "model" "a" 1), none⟩ := by
  simp only [response, awaiting, IdMap.getElem?_collect, Std.ExtTreeMap.getElem?_empty]
  rfl

/-- Both are started, and their increments come in turns. -/
def mixed : List Event := [
  ⟨"a", .start 100⟩, ⟨"b", .start 110⟩, ⟨"a", .apply { usage := some { promptTokens := some 3 } } 120⟩,
  ⟨"b", .apply { content := some "No" } 140⟩, ⟨"a", .apply { content := some "Be" } 150⟩,
  ⟨"b", .finish none 160⟩, ⟨"a", .apply { content := some "cause." } 170⟩]

/-- A response whose increments come in turns with those of another one. -/
theorem tracks_each_response_mixed :
    ∃ m' ended after, (awaiting.run mixed).messages["a"]? = some m' ∧ m'.content = "Because." ∧
      m'.figure .promptTokens = some 3 ∧
      (awaiting.run mixed).step ⟨"a", .finish none 300⟩ = (.finished true, after) ∧
      after.messages["a"]? = some ended ∧ ended.content = "Because." ∧
      ended.figure .timeToFirstToken = some 50 ∧ ended.figure .elapsed = some 150 ∧
      (after.run [⟨"a", .forget⟩, ⟨"b", .start 400⟩]).Over "a" := by
  obtain ⟨m', hm', hgathers, hfinish⟩ := (tracks_each_response awaiting "a").2 (.await "model" "a" 1)
    (congrArg Response.message response_awaiting) rfl mixed (by decide)
  obtain ⟨ended, after, hstep, hended, hcompletes, hover⟩ := hfinish none 300
  have hcontent : m'.content = "Because." := hgathers.content
  have hbegan : Response.Began (own "a" mixed) 100 150 :=
    ⟨[], (own "a" mixed).tail, rfl, by decide, by decide⟩
  have huntimed : Untimed (.await "model" "a" 1) (increments (own "a" mixed)) := by
    unfold Untimed
    decide
  obtain ⟨hfirst, helapsed⟩ := hcompletes.times hbegan huntimed
  exact ⟨m', ended, after, hm', hcontent, hgathers.figure .promptTokens, hstep, hended,
    hcompletes.content.trans hcontent, hfirst, helapsed, hover _ (by decide)⟩

end Tracker

end DialogueSync.Streams
