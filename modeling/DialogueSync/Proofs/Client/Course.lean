import DialogueSync.Proofs.Client.Steps

/-!
# Giving the cache up

A write that is refused because the cache is full is tried once more on a cleared cache. If the cache cannot be
cleared, or the write fails again, the write is a `FailedWrite` and the cache is given up. Nothing else leads to
that, and after it no call is made on the cache any more: calls of which this is true take their `Course`.

Whatever a client does with its stores `Proceeds` in that way, wherever in a synchronisation the write is that
fails. The one exception is to clear the cache on purpose, which puts it to use again.
-/

namespace DialogueSync.Client

open Cache (Record)

/-! ### Calls -/

/-- The call was made on the local cache. -/
def Call.IsLocal (call : Call) : Prop :=
  call.OnCache fun _ => True

/-- The call is on the cache, and nothing has to be done about its reply: it reads or drops, or writes and is
not refused because the cache is full. -/
def Call.Settled : Call → Prop
  | .read .. | .drop .. | .put _ (.ok ()) => True
  | .put _ (.error e) => e.isFull = false
  | .clear _ | .outline .. | .bodies .. | .snapshot .. | .save .. => False

/-- The calls of a write that is refused because the cache is full, after which the cache cannot be cleared, or
the write fails again. -/
inductive FailedWrite : List Call → Prop where
  /-- The cache cannot be cleared. -/
  | clear {records : List Record} {e e' : Failure} (hfull : e.isFull) :
      FailedWrite [.put records (.error e), .clear (.error e')]
  /-- The write fails again. -/
  | retry {records : List Record} {e e' : Failure} (hfull : e.isFull) :
      FailedWrite [.put records (.error e), .clear (.ok ()), .put records (.error e')]

/-- Calls that follow each other as they should, from whether the cache was given up before them to whether it
is given up after them. -/
inductive Course : Bool → List Call → Bool → Prop where
  /-- No call is made. -/
  | nil (d : Bool) : Course d [] d
  /-- A call on the remote store makes no difference. -/
  | remote {d d' : Bool} {call : Call} {rest : List Call} (h : ¬ call.IsLocal) (hrest : Course d rest d') :
      Course d (call :: rest) d'
  /-- A cache in use is called, and nothing has to be done about the reply. -/
  | settled {d' : Bool} {call : Call} {rest : List Call} (h : call.Settled) (hrest : Course false rest d') :
      Course false (call :: rest) d'
  /-- A full cache is cleared and written to again. -/
  | retried {d' : Bool} {records : List Record} {e : Failure} {rest : List Call} (hfull : e.isFull)
      (hrest : Course false rest d') :
      Course false
        (.put records (.error e) :: .clear (.ok ()) :: .put records (.ok ()) :: rest) d'
  /-- A write fails, and the cache is given up. -/
  | failed {d' : Bool} {calls rest : List Call} (h : FailedWrite calls) (hrest : Course true rest d') :
      Course false (calls ++ rest) d'

variable {d d' d'' : Bool} {call : Call} {calls calls' rest made : List Call}

/-- A failed write starts with one that is refused and with clearing the cache, which it does once. -/
lemma FailedWrite.exists_cons (h : FailedWrite calls) :
    ∃ records e reply rest, calls = .put records (.error e) :: .clear reply :: rest ∧ e.isFull ∧
      ∀ reply, .clear reply ∉ rest := by
  cases h with
  | clear hfull => exact ⟨_, _, _, [], rfl, hfull, by simp⟩
  | retry hfull => exact ⟨_, _, _, _, rfl, hfull, by simp⟩

/-- Two failed writes that start in the same place are the same. -/
lemma FailedWrite.append_inj (h : FailedWrite calls) (h' : FailedWrite calls')
    (heq : calls ++ rest = calls' ++ made) : calls = calls' ∧ rest = made := by
  cases h with
  | clear =>
    cases h' with
    | clear => simp_all
    | retry => simp at heq
  | retry =>
    cases h' with
    | clear => simp at heq
    | retry => simp_all

/-! ### Courses -/

namespace Course

/-- What happens in two stretches happens in both together. -/
lemma append (h : Course d calls d') (h' : Course d' calls' d'') : Course d (calls ++ calls') d'' := by
  induction h with
  | nil => exact h'
  | remote hcall _ ih => exact .remote hcall (ih h')
  | settled hcall _ ih => exact .settled hcall (ih h')
  | retried hfull _ ih => exact .retried hfull (ih h')
  | failed hfailed _ ih =>
    rw [List.append_assoc]
    exact .failed hfailed (ih h')

/-- Once the cache is given up it stays so, and no call is made on it. -/
lemma of_givenUp (h : Course d calls d') (hd : d = true) :
    d' = true ∧ ∀ call ∈ calls, ¬ call.IsLocal := by
  induction h with
  | nil => exact ⟨hd, List.forall_mem_nil _⟩
  | remote hcall _ ih =>
    obtain ⟨hd', hrest⟩ := ih hd
    exact ⟨hd', List.forall_mem_cons.mpr ⟨hcall, hrest⟩⟩
  | settled => cases hd
  | retried => cases hd
  | failed => cases hd

/-- A failed write among some calls of which the first is none of its own is among the others. -/
lemma infix_of_cons (hfailed : FailedWrite calls)
    (hcall : ∀ records e, e.isFull → call ≠ .put records (.error e)) (h : calls <:+: call :: rest) :
    calls <:+: rest := by
  obtain ⟨records, e, reply, others, rfl, hfull, -⟩ := hfailed.exists_cons
  rcases List.infix_cons_iff.mp h with hprefix | hinfix
  · exact absurd (List.cons_prefix_cons.mp hprefix).1.symm (hcall records e hfull)
  · exact hinfix

/-- A cache in use is given up exactly if there is a failed write. -/
lemma givenUp_iff (h : Course d made d') (hd : d = false) :
    d' = true ↔ ∃ calls, FailedWrite calls ∧ calls <:+: made := by
  induction h with
  | nil =>
    refine iff_of_false (by simp [hd]) ?_
    rintro ⟨calls, hfailed, hinfix⟩
    obtain ⟨_, _, _, _, rfl, -⟩ := hfailed.exists_cons
    cases List.infix_nil.mp hinfix
  | @remote d d' call rest hcall _ ih =>
    rw [ih hd]
    refine exists_congr fun calls => and_congr_right fun hfailed => ?_
    refine ⟨fun hinfix => List.infix_cons hinfix, infix_of_cons hfailed fun records e _ heq => hcall ?_⟩
    rw [heq]
    trivial
  | @settled d' call rest hcall _ ih =>
    rw [ih rfl]
    refine exists_congr fun calls => and_congr_right fun hfailed => ?_
    refine ⟨fun hinfix => List.infix_cons hinfix, infix_of_cons hfailed fun records e hfull heq => ?_⟩
    rw [heq] at hcall
    exact Bool.false_ne_true (hcall.symm.trans hfull)
  | @retried d' records e rest hfull _ ih =>
    rw [ih rfl]
    refine exists_congr fun calls => and_congr_right fun hfailed => ?_
    refine ⟨fun hinfix => List.infix_cons (List.infix_cons (List.infix_cons hinfix)), fun hinfix => ?_⟩
    -- No failed write starts with a write that succeeds on the cleared cache.
    rcases List.infix_cons_iff.mp hinfix with hprefix | hinfix
    · exfalso
      cases hfailed <;> simp at hprefix
    · refine infix_of_cons hfailed (fun _ _ _ => ?_) (infix_of_cons hfailed (fun _ _ _ => ?_) hinfix)
      · exact fun heq => by cases heq
      · exact fun heq => by cases heq
  | @failed d' calls rest hfailed hrest _ =>
    exact iff_of_true (hrest.of_givenUp rfl).1 ⟨calls, hfailed, (List.prefix_append calls rest).isInfix⟩

/-- After a failed write no call is made on the cache. -/
lemma not_isLocal_of_failed (h : Course d made d') {before after : List Call}
    (heq : made = before ++ calls ++ after) (hfailed : FailedWrite calls) :
    ∀ call ∈ after, ¬ call.IsLocal := by
  obtain ⟨records, e, reply, others, hcalls, hfull, -⟩ := hfailed.exists_cons
  -- The failed write begins with the first call, or within what comes after it.
  induction h generalizing before with
  | nil =>
    rw [hcalls] at heq
    simp at heq
  | remote hcall _ ih =>
    cases before with
    | nil =>
      rw [hcalls] at heq
      obtain ⟨rfl, -⟩ := List.cons.inj heq
      exact absurd trivial hcall
    | cons first before => exact ih (List.cons.inj heq).2
  | settled hcall _ ih =>
    cases before with
    | nil =>
      rw [hcalls] at heq
      obtain ⟨rfl, -⟩ := List.cons.inj heq
      exact absurd (hcall.symm.trans hfull) Bool.false_ne_true
    | cons first before => exact ih (List.cons.inj heq).2
  | retried _ _ ih =>
    rcases before with _ | ⟨_, _ | ⟨_, _ | ⟨_, before⟩⟩⟩
    · exfalso
      cases hfailed <;> simp at heq
    · simp [hcalls] at heq
    · simp [hcalls] at heq
    · simp only [List.cons_append, List.cons.injEq] at heq
      exact ih heq.2.2.2
  | @failed _ calls' rest hfailed' hrest _ =>
    have hquiet := (hrest.of_givenUp rfl).2
    obtain ⟨records', e', reply', others', hcalls', -, honce⟩ := hfailed'.exists_cons
    rcases before with _ | ⟨first, _ | ⟨second, before⟩⟩
    · obtain ⟨-, rfl⟩ := hfailed'.append_inj hfailed heq
      exact hquiet
    · simp [hcalls, hcalls'] at heq
    · -- The cache would have to be cleared once more.
      simp only [hcalls', List.cons_append, List.cons.injEq] at heq
      have hmem : Call.clear reply ∈ others' ++ rest := by
        rw [heq.2.2, hcalls]
        simp
      rcases List.mem_append.mp hmem with hmem | hmem
      · exact absurd hmem (honce reply)
      · exact absurd trivial (hquiet _ hmem)

end Course

/-! ### What a client does with its stores -/

namespace Stores

variable {ρ κ : Type} {s s' s'' : Stores ρ κ} {conversation : String}

/-- From one state to the other calls were made that take their course. -/
def Proceeds (s s' : Stores ρ κ) : Prop :=
  ∃ made, s'.calls = s.calls ++ made ∧ Course s.degraded made s'.degraded

namespace Proceeds

lemma refl (s : Stores ρ κ) : Proceeds s s :=
  ⟨[], (List.append_nil _).symm, .nil _⟩

lemma trans (h : Proceeds s s') (h' : Proceeds s' s'') : Proceeds s s'' := by
  obtain ⟨made, hmade, hcourse⟩ := h
  obtain ⟨made', hmade', hcourse'⟩ := h'
  exact ⟨made ++ made', by rw [hmade', hmade, List.append_assoc], hcourse.append hcourse'⟩

/-- A single call on the remote store. -/
lemma of_remote (call : Call) (hcall : ¬ call.IsLocal) (hcalls : s'.calls = s.calls ++ [call])
    (hdegraded : s'.degraded = s.degraded) : Proceeds s s' :=
  ⟨[call], hcalls, hdegraded ▸ .remote hcall (.nil _)⟩

/-- A single call on a cache in use, after which it stays in use. -/
lemma of_settled (hs : s.degraded = false) (call : Call) (hcall : call.Settled)
    (hcalls : s'.calls = s.calls ++ [call]) (hdegraded : s'.degraded = s.degraded) : Proceeds s s' := by
  refine ⟨[call], hcalls, ?_⟩
  rw [hdegraded, hs]
  exact .settled hcall (.nil _)

/-- The calls made so far stay at the front of the trace. -/
lemma calls_isPrefix (h : Proceeds s s') : s.calls <+: s'.calls := by
  obtain ⟨made, hmade, -⟩ := h
  exact ⟨made, hmade.symm⟩

end Proceeds

section Cache

variable [Cache κ]

/-- Reading the records goes its course. -/
lemma proceeds_cachedRecords (s : Stores ρ κ) (conversation : String) :
    Proceeds s (s.cachedRecords conversation).2 := by
  unfold cachedRecords
  split
  · exact .refl s
  next hs => exact .of_settled (by simpa using hs) (.read conversation _) trivial rfl rfl

lemma proceeds_discard (s : Stores ρ κ) (conversation : String) :
    Proceeds s (s.discard conversation).2 := by
  cases hs : s.degraded with
  | true =>
    rw [discard, if_pos hs]
    exact .refl s
  | false =>
    rw [snd_discard hs]
    exact .of_settled hs (.drop conversation _) trivial rfl rfl

/-- A call of `put` is traced, and touches nothing else. -/
lemma callPut_frame {records : List Record} {reply : Except Failure Unit}
    (h : s.callPut records = (reply, s')) :
    s'.calls = s.calls ++ [.put records reply] ∧ s'.degraded = s.degraded := by
  obtain ⟨rfl, rfl⟩ := Prod.mk.inj h
  exact ⟨rfl, rfl⟩

lemma callClear_frame {reply : Except Failure Unit} (h : s.callClear = (reply, s')) :
    s'.calls = s.calls ++ [.clear reply] ∧ s'.degraded = s.degraded := by
  obtain ⟨rfl, rfl⟩ := Prod.mk.inj h
  exact ⟨rfl, rfl⟩

/-- A write that was refused because the cache is full succeeds on the cleared cache, or it fails and the cache
is given up. -/
lemma proceeds_clearAndRetry (hs : s.degraded = false) {records : List Record} {e : Failure}
    (hfull : e.isFull) {refused : Stores ρ κ} (hput : s.callPut records = (.error e, refused)) :
    Proceeds s (refused.clearAndRetry records).2 := by
  obtain ⟨hcalls, hdegraded⟩ := callPut_frame hput
  unfold clearAndRetry
  rw [Proceeds, hs]
  split
  next e' t hclear =>
    refine ⟨[.put records (.error e), .clear (.error e')], ?_, .failed (.clear hfull) (.nil true)⟩
    change t.calls = _
    rw [(callClear_frame hclear).1, hcalls, List.append_assoc]
    rfl
  next t hclear =>
    obtain ⟨hcalls', hdegraded'⟩ := callClear_frame hclear
    split
    next t' hretry =>
      obtain ⟨hcalls'', hdegraded''⟩ := callPut_frame hretry
      refine ⟨[.put records (.error e), .clear (.ok ()), .put records (.ok ())], ?_, ?_⟩
      · rw [hcalls'', hcalls', hcalls, List.append_assoc, List.append_assoc]
        rfl
      · rw [hdegraded'', hdegraded', hdegraded, hs]
        exact .retried hfull (.nil false)
    next e' t' hretry =>
      refine ⟨[.put records (.error e), .clear (.ok ()), .put records (.error e')], ?_,
        .failed (.retry hfull) (.nil true)⟩
      change t'.calls = _
      rw [(callPut_frame hretry).1, hcalls', hcalls, List.append_assoc, List.append_assoc]
      rfl

/-- Writing records goes its course, whether the cache takes them or not. -/
lemma proceeds_store (s : Stores ρ κ) (records : List Record) : Proceeds s (s.store records).2 := by
  unfold store
  split
  · exact .refl s
  next hs =>
    have hs : s.degraded = false := by simpa using hs
    split
    · exact .refl s
    split
    next t hput =>
      obtain ⟨hcalls, hdegraded⟩ := callPut_frame hput
      exact .of_settled hs (.put records (.ok ())) trivial hcalls hdegraded
    next e t hput =>
      obtain ⟨hcalls, hdegraded⟩ := callPut_frame hput
      split
      next hfull => exact proceeds_clearAndRetry hs hfull hput
      next hfull =>
        have hsettled : (Call.put records (.error e)).Settled := Bool.eq_false_iff.mpr hfull
        exact .of_settled hs (.put records (.error e)) hsettled hcalls hdegraded

lemma proceeds_storeIf (s : Stores ρ κ) (writable : Bool) (records : List Record) :
    Proceeds s (s.storeIf writable records) := by
  unfold storeIf
  split
  · exact proceeds_store s records
  · exact .refl s

lemma proceeds_overwrite (s : Stores ρ κ) (conversation : String) (records : List Record) :
    Proceeds s (s.overwrite conversation records).2 := by
  have hdiscard := proceeds_discard s conversation
  unfold overwrite
  split
  next t heq =>
    rw [heq] at hdiscard
    exact hdiscard.trans (proceeds_store t records)
  next t heq =>
    rw [heq] at hdiscard
    exact hdiscard

/-- Taking stock goes on after reading. -/
lemma proceeds_takeStock (s : Stores ρ κ) (conversation : String) (o : Outline) :
    Proceeds (s.cachedRecords conversation).2 (s.takeStock conversation o).2 := by
  have hdiscard := proceeds_discard (s.cachedRecords conversation).2 conversation
  unfold takeStock
  dsimp only
  split
  · split
    next heq =>
      rw [heq] at hdiscard
      exact hdiscard
    next heq =>
      rw [heq] at hdiscard
      exact hdiscard
  · exact .refl _

end Cache

variable [Remote ρ]

/-- A question to the remote does not touch the cache. -/
lemma proceeds_askOutline (s : Stores ρ κ) (conversation : String) :
    Proceeds s (s.askOutline conversation).2 :=
  .of_remote (.outline conversation _) id rfl rfl

lemma proceeds_askSnapshot (s : Stores ρ κ) (conversation : String) :
    Proceeds s (s.askSnapshot conversation).2 :=
  .of_remote (.snapshot conversation _) id rfl rfl

lemma proceeds_save (s : Stores ρ κ) (conversation : String) (request : SaveRequest) :
    Proceeds s (s.save conversation request).2 :=
  .of_remote (.save conversation request _) id rfl rfl

/-- Fetching bodies goes its course, whether one request is needed or none. -/
lemma proceeds_fetch (s : Stores ρ κ) (conversation : String) (o : Outline) (ids : List String) :
    Proceeds s (s.fetch conversation o ids).2 := by
  have hask : Proceeds s (s.askBodies conversation ids).2 :=
    .of_remote (.bodies conversation ids _) id rfl rfl
  unfold fetch
  split
  · exact .refl s
  · split
    next heq =>
      rw [heq] at hask
      exact hask
    next heq =>
      rw [heq] at hask
      dsimp only
      split
      · exact hask
      · exact hask

variable [Cache κ]

omit [Remote ρ] in
/-- So does what a pass does once it has the bodies. -/
lemma proceeds_finishPass (s : Stores ρ κ) (conversation : String) (o : Outline) (h : Holdings)
    (ids : List String) (fetched : IdMap Message) :
    Proceeds s (s.finishPass conversation o h ids fetched).2 := by
  have hread := (proceeds_storeIf s h.writable
    (fetchedRecords conversation o ids fetched s.clock)).trans (proceeds_cachedRecords _ conversation)
  unfold finishPass
  dsimp only
  split
  · exact hread.trans (proceeds_storeIf _ _ _)
  · exact hread

/-- Once the outline has come, a differential pass goes on after reading the cache. -/
lemma proceeds_refreshChanged_of_ok {o : Outline} {asked : Stores ρ κ}
    (hask : s.askOutline conversation = (.ok o, asked)) :
    Proceeds (asked.cachedRecords conversation).2 (s.refreshChanged conversation).2 := by
  have hstocked := proceeds_takeStock asked conversation o
  have hfetched := hstocked.trans (proceeds_fetch _ conversation o
    (wanted o (asked.takeStock conversation o).1.held))
  unfold refreshChanged
  rw [hask]
  dsimp only
  split
  next heq =>
    rw [heq] at hfetched
    exact hfetched
  next heq =>
    rw [heq] at hfetched
    exact hfetched.trans (proceeds_finishPass _ _ _ _ _ _)

/-- Without an outline the pass ends. -/
lemma refreshChanged_of_error {e : Failure} {asked : Stores ρ κ}
    (hask : s.askOutline conversation = (.error e, asked)) :
    s.refreshChanged conversation = (.error e, asked) := by
  unfold refreshChanged
  rw [hask]

/-- The differential pass goes its course. -/
lemma proceeds_refreshChanged (s : Stores ρ κ) (conversation : String) :
    Proceeds s (s.refreshChanged conversation).2 := by
  have hask := proceeds_askOutline s conversation
  cases hreply : s.askOutline conversation with
  | mk reply asked =>
    rw [hreply] at hask
    cases reply with
    | error e =>
      rw [refreshChanged_of_error hreply]
      exact hask
    | ok o =>
      exact (hask.trans (proceeds_cachedRecords asked conversation)).trans
        (proceeds_refreshChanged_of_ok hreply)

lemma proceeds_refreshWhole (s : Stores ρ κ) (conversation : String) :
    Proceeds s (s.refreshWhole conversation).2 := by
  have hask := proceeds_askSnapshot s conversation
  unfold refreshWhole
  split
  next heq =>
    rw [heq] at hask
    exact hask
  next heq =>
    rw [heq] at hask
    exact hask.trans (proceeds_overwrite _ _ _)

/-- After a differential pass over a cache that was in use, synchronising is done or goes on with a full fetch. -/
lemma proceeds_refresh_of_refreshChanged (hs : s.degraded = false) :
    Proceeds (s.refreshChanged conversation).2 (s.refresh conversation).2 := by
  unfold refresh
  rw [if_neg (by simp [hs])]
  split
  next heq =>
    rw [heq]
    exact .refl _
  next heq =>
    rw [heq]
    exact proceeds_refreshWhole _ conversation

/-- Synchronising takes its course. -/
theorem proceeds_refresh {reply : Except Failure (Tree × Report)}
    (h : s.refresh conversation = (reply, s')) : Proceeds s s' := by
  suffices hrefresh : Proceeds s (s.refresh conversation).2 by rwa [h] at hrefresh
  cases hs : s.degraded with
  | true =>
    rw [refresh, if_pos hs]
    exact proceeds_refreshWhole s conversation
  | false => exact (proceeds_refreshChanged s conversation).trans (proceeds_refresh_of_refreshChanged hs)

end Stores

end DialogueSync.Client
