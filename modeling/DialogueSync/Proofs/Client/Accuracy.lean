import DialogueSync.Proofs.Client.Traffic
import DialogueSync.Proofs.Client.Wholeness

/-!
# What synchronising reports

A report says how a conversation was synchronised, how many messages it has, and whether records were purged from the
cache. The first two are always right. A purge, however, is reported by a differential pass when it finds more records
than the outline has messages, before it tries to drop them, and it is not reported at all by a full fetch, although
the pass that has failed before it may have dropped them. So the report is accurate (`Accurate`) exactly if stale
records, where there were any, were dropped just when the differential pass succeeded (`accurate_iff`).
-/

namespace DialogueSync.Client

open Cache (Memory Record Scripted)

/-! ### Dropping stale records -/

/-- Among some calls the records of a conversation were read and found to be more than its outline has messages, and
there was this reply when they were to be dropped for it. -/
def DropsStale (conversation : String) (made : List Call) (reply : Except Failure Unit) : Prop :=
  ∃ (o : Outline) (records : List Record), o.size < (Record.byId records).size ∧
    [.outline conversation (.ok o), .read conversation (.ok records), .drop conversation reply] <:+: made

/-- The report of a synchronisation with a certain tree says what was done in these calls. -/
structure Accurate (conversation : String) (tree : Tree) (report : Report) (made : List Call) : Prop where
  /-- A purge is reported exactly if stale records were dropped. -/
  purged_iff : report.purged = true ↔ DropsStale conversation made (.ok ())
  /-- The number of messages is that of the tree. -/
  total_eq : report.total = tree.size
  /-- A full fetch is reported exactly if the tree is that of a snapshot which has come. -/
  mode_eq_full_iff : report.mode = .full ↔
    ∃ full, .snapshot conversation (.ok full) ∈ made ∧ tree = Stores.treeOf full

/-- The call is to drop records, and does not fail. -/
def Call.hasDropped : Call → Bool
  | .drop _ (.ok _) => true
  | .drop _ (.error _) | .outline .. | .bodies .. | .snapshot .. | .save .. | .read .. | .put .. | .clear .. => false

section Calls

variable {conversation : String} {o : Outline} {records : List Record} {stock rest made : List Call}
  {reply : Except Failure Unit}

/-- The purge that the pass got an answer to is among its calls. -/
lemma DropsStale.drop_mem (h : DropsStale conversation made reply) : .drop conversation reply ∈ made := by
  obtain ⟨o, records, -, hcalls⟩ := h
  exact hcalls.subset (by simp)

/-- If the outline is not asked for again, what is to be dropped because of it is dropped right away. -/
lemma dropsStale_cons_iff (hrest : ∀ c answer, .outline c answer ∉ rest) :
    DropsStale conversation (.outline conversation (.ok o) :: rest) reply ↔
      ∃ records, o.size < (Record.byId records).size ∧
        [.read conversation (.ok records), .drop conversation reply] <+: rest := by
  constructor
  · rintro ⟨o', records, hmore, hcalls⟩
    rcases List.infix_cons_iff.mp hcalls with hfirst | hlater
    · obtain ⟨hcall, hnext⟩ := List.cons_prefix_cons.mp hfirst
      cases hcall
      exact ⟨records, hmore, hnext⟩
    · exact absurd (hlater.subset List.mem_cons_self) (hrest _ _)
  · rintro ⟨records, hmore, hnext⟩
    exact ⟨o, records, hmore, (List.cons_prefix_cons.mpr ⟨rfl, hnext⟩).isInfix⟩

/-- Stale records are dropped when stock is taken, or not at all. -/
lemma Stocktaking.dropsStale_iff (h : Stocktaking conversation o stock records)
    (hrest : ∀ c answer, .outline c answer ∉ rest) :
    DropsStale conversation (.outline conversation (.ok o) :: (stock ++ rest)) reply ↔
      .drop conversation reply ∈ stock := by
  have hnone : ∀ c answer, .outline c answer ∉ stock ++ rest := by
    intro c answer hcall
    rcases List.mem_append.mp hcall with hcall | hcall
    · exact h.isLocal _ hcall
    · exact hrest c answer hcall
  rw [dropsStale_cons_iff hnone]
  cases h with
  | unread e => simp
  | read hfew => simp [Nat.not_lt.mpr hfew]
  | dropped hmore => simp [hmore]
  | stuck hmore e => simp [hmore]

/-- Records are dropped once at most when stock is taken. -/
lemma Stocktaking.drop_unique (h : Stocktaking conversation o stock records) {reply' : Except Failure Unit}
    (hdrop : .drop conversation reply ∈ stock) (hdrop' : .drop conversation reply' ∈ stock) : reply = reply' := by
  cases h with
  | unread e => simp at hdrop
  | read hfew => simp at hdrop
  | dropped hmore =>
    have hreply : reply = .ok () := by simpa using hdrop
    have hreply' : reply' = .ok () := by simpa using hdrop'
    rw [hreply, hreply']
  | stuck hmore e =>
    have hreply : reply = .error e := by simpa using hdrop
    have hreply' : reply' = .error e := by simpa using hdrop'
    rw [hreply, hreply']

/-- If a purge is reported by a differential pass that was to drop stale records, the report is accurate exactly if
they were dropped just when the pass succeeded. -/
lemma accurate_iff_forall {tree : Tree} {report : Report} (htotal : report.total = tree.size)
    (hmode : report.mode = .full ↔ ∃ full, .snapshot conversation (.ok full) ∈ made ∧ tree = Stores.treeOf full)
    (hpurged : report.purged = true ↔ report.mode = .differential ∧ ∃ reply, DropsStale conversation made reply)
    (hunique : report.mode = .differential → ∀ reply reply', DropsStale conversation made reply →
      DropsStale conversation made reply' → reply = reply') :
    Accurate conversation tree report made ↔
      ∀ reply, DropsStale conversation made reply → (report.mode = .differential ↔ reply = .ok ()) := by
  constructor
  · intro haccurate reply hreply
    constructor
    · intro hdifferential
      have hok := haccurate.purged_iff.mp (hpurged.mpr ⟨hdifferential, reply, hreply⟩)
      exact hunique hdifferential reply _ hreply hok
    · rintro rfl
      exact (hpurged.mp (haccurate.purged_iff.mpr hreply)).1
  · intro hall
    refine ⟨hpurged.trans ⟨?_, fun hok => ⟨(hall _ hok).mpr rfl, _, hok⟩⟩, htotal, hmode⟩
    rintro ⟨hdifferential, reply, hreply⟩
    rwa [← (hall reply hreply).mp hdifferential]

/-- The outline is asked for once. -/
lemma Survey.outline_not_mem (h : Survey conversation (.outline conversation (.ok o) :: rest)) (c : String)
    (answer : Except Failure Outline) : .outline c answer ∉ rest := by
  intro hcall
  have hzero : 0 ∈ rest.filterMap Call.stage? := List.mem_filterMap.mpr ⟨_, hcall, rfl⟩
  have hstages := h.stages
  rw [List.filterMap_cons_some (show Call.stage? (.outline conversation (.ok o)) = some 0 from rfl)] at hstages
  rcases hstages with hstages | hstages
  · rw [(List.cons.inj hstages).2] at hzero
    cases hzero
  · rw [(List.cons.inj hstages).2] at hzero
    simp at hzero

end Calls

namespace Stores

variable {ρ κ : Type} [Remote ρ] [Cache κ] {s s' : Stores ρ κ} {conversation : String} {tree : Tree}
  {report : Report}

/-- A differential pass that succeeds counts the cache as stale exactly if records were to be dropped for it, which
was tried only once. -/
lemma Pass.exists_dropsStale (p : Pass s s' conversation) (hs : s.degraded = false) :
    ∃ made, s'.calls = s.calls ++ made ∧ (∀ c answer, .snapshot c answer ∉ made) ∧
      (p.holdings.stale = true ↔ ∃ reply, DropsStale conversation made reply) ∧
      ∀ reply reply', DropsStale conversation made reply → DropsStale conversation made reply' →
        reply = reply' := by
  obtain ⟨hcalls, -, hdegraded⟩ := askOutline_frame p.askOutline_eq
  obtain ⟨stock, records, hstocked, hstock, -, hstale⟩ :=
    exists_stocktaking (hdegraded.trans hs) conversation p.outline
  rw [p.takeStock_eq] at hstocked hstale
  obtain ⟨-, -, hsupplied, hcached, hchecked, hend⟩ := p.calls_isPrefix
  obtain ⟨rest, hrest⟩ := hsupplied.trans (hcached.trans (hchecked.trans hend))
  -- The survey speaks of the same calls, and says that the outline is asked for only at the beginning.
  obtain ⟨made, hmade, hsurvey⟩ := p.exists_survey hs
  obtain rfl : made = .outline conversation (.ok p.outline) :: (stock ++ rest) := by
    rw [← hrest, hstocked, hcalls, List.append_assoc, List.append_assoc] at hmade
    exact (List.append_cancel_left hmade).symm
  have hnone : ∀ c answer, .outline c answer ∉ rest := fun c answer hcall =>
    hsurvey.outline_not_mem c answer (List.mem_append_right stock hcall)
  refine ⟨_, hmade, hsurvey.snapshot_not_mem, ?_, fun reply reply' h h' => ?_⟩
  · rw [hstale]
    exact exists_congr fun reply => (hstock.dropsStale_iff hnone).symm
  · exact hstock.drop_unique ((hstock.dropsStale_iff hnone).mp h) ((hstock.dropsStale_iff hnone).mp h')

/-- A full fetch that succeeds has had a snapshot for a reply, and reports no purge. -/
lemma report_of_refreshWhole {t : Stores ρ κ} (hbefore : s.calls <+: t.calls)
    (h : t.refreshWhole conversation = (.ok (tree, report), s')) :
    report.mode = .full ∧ report.purged = false ∧ report.total = tree.size ∧
      ∃ full, Noted s s' (.snapshot conversation (.ok full)) ∧ tree = treeOf full := by
  rcases refreshWhole_cases h with ⟨e, hreply, -⟩ | ⟨full, asked, hask, hreply, rfl⟩
  · cases hreply
  · obtain ⟨rfl, rfl⟩ := Prod.mk.inj (Except.ok.inj hreply)
    have hnoted : Noted t asked (.snapshot conversation (.ok full)) :=
      ⟨_, (askSnapshot_frame hask).1, List.mem_singleton_self _⟩
    have hsteps : CacheSteps conversation (fun _ => True) asked (asked.overwrite conversation
        ((treeOf full).messages.values.map (snapshotRecord conversation full asked.clock))).2 :=
      (CacheSteps.refl asked).overwrite trivial
    exact ⟨rfl, rfl, rfl, full, hnoted.mono hbefore hsteps.calls_isPrefix, rfl⟩

/-- Synchronising that succeeds is a differential pass or ends with a full fetch. -/
lemma refresh_ok_cases (h : s.refresh conversation = (.ok (tree, report), s')) :
    (s.degraded = false ∧ ∃ p : Pass s s' conversation, tree = p.tree ∧ report = p.report) ∨
      ∃ t : Stores ρ κ, s.calls <+: t.calls ∧ t.refreshWhole conversation = (.ok (tree, report), s') := by
  rcases refresh_cases h with ⟨hs, p, hreply⟩ | ⟨hs, e, failed, hpass, hwhole⟩ | ⟨-, hwhole⟩
  · exact Or.inl ⟨hs, p, Prod.mk.inj (Except.ok.inj hreply)⟩
  · obtain ⟨made, hmade, -⟩ := exists_survey_of_error hs hpass
    exact Or.inr ⟨failed, ⟨made, hmade.symm⟩, hwhole⟩
  · exact Or.inr ⟨s, List.prefix_rfl, hwhole⟩

/-- The number of messages and the way of synchronising are reported as they are. A purge is reported by a differential
pass that was to drop stale records, which it tried only once. -/
lemma exists_made_of_report (h : s.refresh conversation = (.ok (tree, report), s')) :
    ∃ made, s'.calls = s.calls ++ made ∧ report.total = tree.size ∧
      (report.mode = .full ↔ ∃ full, .snapshot conversation (.ok full) ∈ made ∧ tree = treeOf full) ∧
      (report.purged = true ↔ report.mode = .differential ∧ ∃ reply, DropsStale conversation made reply) ∧
      (report.mode = .differential → ∀ reply reply', DropsStale conversation made reply →
        DropsStale conversation made reply' → reply = reply') := by
  rcases refresh_ok_cases h with ⟨hs, p, rfl, rfl⟩ | ⟨t, hbefore, hwhole⟩
  · obtain ⟨made, hmade, hnone, hstale, hunique⟩ := p.exists_dropsStale hs
    refine ⟨made, hmade, rfl, ?_, hstale.trans (and_iff_right rfl).symm, fun _ => hunique⟩
    exact iff_of_false (by simp [Pass.report]) fun ⟨full, hfull, _⟩ => hnone conversation _ hfull
  · obtain ⟨hmode, hpurged, htotal, full, ⟨made, hmade, hfull⟩, htree⟩ := report_of_refreshWhole hbefore hwhole
    exact ⟨made, hmade, htotal, iff_of_true hmode ⟨full, hfull, htree⟩, by simp [hpurged, hmode], by simp [hmode]⟩

/-- Whatever the remote store and the cache answer, the number of messages and the way of synchronising are reported as
they are. A purge is reported exactly if the synchronisation was differential and records were to be dropped as stale.
So the report is accurate exactly if, where stale records were to be dropped, this succeeded just when the differential
pass did. -/
theorem accurate_iff (h : s.refresh conversation = (.ok (tree, report), s')) :
    ∃ made, s'.calls = s.calls ++ made ∧ report.total = tree.size ∧
      (report.mode = .full ↔ ∃ full, .snapshot conversation (.ok full) ∈ made ∧ tree = treeOf full) ∧
      (report.purged = true ↔ report.mode = .differential ∧ ∃ reply, DropsStale conversation made reply) ∧
      (Accurate conversation tree report made ↔
        ∀ reply, DropsStale conversation made reply → (report.mode = .differential ↔ reply = .ok ())) := by
  obtain ⟨made, hmade, htotal, hmode, hpurged, hunique⟩ := exists_made_of_report h
  exact ⟨made, hmade, htotal, hmode, hpurged, accurate_iff_forall htotal hmode hpurged hunique⟩

/-- Synchronising succeeds if it is found to have reported something. -/
lemma exists_refresh_of_report (h : (s.refresh conversation).1.toOption.map Prod.snd = some report) :
    ∃ t, s.refresh conversation = (.ok (t, report), (s.refresh conversation).2) := by
  cases hreply : (s.refresh conversation).1 with
  | error e =>
    rw [hreply] at h
    cases h
  | ok outcome =>
    rw [hreply] at h
    obtain rfl : outcome.2 = report := Option.some.inj h
    exact ⟨outcome.1, Prod.ext hreply rfl⟩

/-- A cache that holds the question of the exchange and two messages that are gone. -/
def lagging : Scripted Memory where
  inner := ({} : Memory).written [Record.own "c" (Message.ask "Why?" "a" 1) 0,
    Record.own "c" (Message.ask "Who?" "y" 0) 0, Record.own "c" (Message.ask "When?" "z" 0) 0]

/-- The three records are dropped, and so it is reported. -/
theorem accurate_iff_lagging :
    ∃ tree s', (withExchange lagging).refresh "c" = (.ok (tree, ⟨.differential, 2, true, 2⟩), s') ∧
      Accurate "c" tree ⟨.differential, 2, true, 2⟩ s'.calls := by
  have hreport : ((withExchange lagging).refresh "c").1.toOption.map Prod.snd =
      some ⟨.differential, 2, true, 2⟩ := by decide +kernel
  have hnone : ∀ call ∈ ((withExchange lagging).refresh "c").2.calls, ¬ call.FailsToWrite := by decide +kernel
  obtain ⟨tree, hrefresh⟩ := exists_refresh_of_report hreport
  obtain ⟨made, hmade, -, -, -, haccurate⟩ := accurate_iff hrefresh
  obtain rfl : ((withExchange lagging).refresh "c").2.calls = made := by
    rw [hmade]
    rfl
  refine ⟨tree, _, hrefresh, haccurate.mpr fun reply hreply => iff_of_true rfl ?_⟩
  cases reply with
  | ok => rfl
  | error e => exact absurd trivial (hnone _ hreply.drop_mem)

/-- The same cache, which cannot be used when records are to be dropped from it. -/
def refusing : Scripted Memory :=
  { lagging with drops := [some (.cacheFailed "refused")] }

/-- The three records are not dropped, and it is reported that they were. -/
theorem not_accurate_refusing :
    ∃ tree s', (withExchange refusing).refresh "c" = (.ok (tree, ⟨.differential, 1, true, 2⟩), s') ∧
      ¬ Accurate "c" tree ⟨.differential, 1, true, 2⟩ s'.calls := by
  have hreport : ((withExchange refusing).refresh "c").1.toOption.map Prod.snd =
      some ⟨.differential, 1, true, 2⟩ := by decide +kernel
  have hnone : ∀ call ∈ ((withExchange refusing).refresh "c").2.calls, call.hasDropped = false := by
    decide +kernel
  obtain ⟨tree, hrefresh⟩ := exists_refresh_of_report hreport
  refine ⟨tree, _, hrefresh, fun haccurate => ?_⟩
  exact absurd (hnone _ (haccurate.purged_iff.mp rfl).drop_mem) (by simp [Call.hasDropped])

/-- A remote store that does not come up with the bodies, beside a cache with stale records. -/
def withholding : Stores (Remote.Scripted Remote.Archive) (Scripted Memory) where
  remote := {
    inner := (withExchange lagging).remote
    bodies := [.error (.unreachable "http://localhost" "refused")] }
  cache := lagging

/-- The stale records are dropped, and the full fetch that follows reports no purge. -/
example : (withholding.refresh "c").1.toOption.map Prod.snd = some ⟨.full, 2, false, 2⟩ ∧
    (withholding.refreshChanged "c").2.calls.any Call.hasDropped = true := by
  decide +kernel

end Stores

end DialogueSync.Client
