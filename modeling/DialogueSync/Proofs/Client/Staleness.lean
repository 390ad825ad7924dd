import DialogueSync.Proofs.Client.Wholeness

/-!
# Caches that are out of date

If more records of a conversation are cached than its outline has messages, some of them are of messages that
are gone. A pass then drops all of them before anything is written (`calls_takeStock_of_outnumbered`). If that
fails, the pass goes on with what it has read and leaves the cache as it is (`Pass.exists_calls_of_not_writable`).
If it succeeds, only messages of the outline are written after it, so that no other record of the conversation is
there in the end (`Pass.mem_nodes_of_recordsOf`).
-/

namespace DialogueSync.Client.Stores

open Cache (Memory Record Scripted)

variable {ρ κ : Type} {conversation : String} {o : Outline} {records : List Record}

/-! ### Dropping the records -/

section Stock

variable [Cache κ] {s s' asked read : Stores ρ κ}

/-- If more records are read than the outline has messages they are dropped, and the cache may be written to in
this pass exactly if that succeeds. -/
lemma takeStock_of_outnumbered (hs : s.degraded = false)
    (hread : s.callRead conversation = (.ok records, read)) (hmore : o.size < (Record.byId records).size) :
    (s.takeStock conversation o).2 = (read.callDrop conversation).2 ∧
      ((s.takeStock conversation o).1.writable = true ↔ (read.callDrop conversation).1 = .ok ()) := by
  have hcached : s.cachedRecords conversation = (some records, read) := by
    rw [cachedRecords, if_neg (by simp [hs]), hread]
    rfl
  have hdegraded : read.degraded = false := (callRead_frame hread).2.trans hs
  unfold takeStock
  rw [hcached]
  dsimp only [Option.getD_some]
  rw [if_pos hmore, discard, if_neg (by simp [hdegraded])]
  cases hdrop : read.callDrop conversation with
  | mk reply dropped => cases reply <;> simp

/-- Up to then the outline was asked for and the records were read and dropped. -/
lemma calls_takeStock_of_outnumbered [Remote ρ] (hs : s.degraded = false)
    (hask : s.askOutline conversation = (.ok o, asked))
    (hread : asked.callRead conversation = (.ok records, read)) (hmore : o.size < (Record.byId records).size) :
    (asked.takeStock conversation o).2.calls = s.calls ++ [.outline conversation (.ok o),
      .read conversation (.ok records), .drop conversation (read.callDrop conversation).1] := by
  obtain ⟨hasked, -, hdegraded⟩ := askOutline_frame hask
  rw [(takeStock_of_outnumbered (hdegraded.trans hs) hread hmore).1]
  change read.calls ++ [.drop conversation (read.callDrop conversation).1] = _
  rw [(callRead_frame hread).1, hasked]
  simp

end Stock

variable [Remote ρ] {s s' asked read : Stores ρ (Scripted Memory)}

namespace Pass

variable (p : Pass s s' conversation)

/-! ### A pass that may not write -/

/-- A pass that may not write to the cache asks for bodies and reads, and makes no other call. -/
lemma exists_calls_of_not_writable (hwritable : p.holdings.writable = false) :
    ∃ rest, s'.calls = p.stocked.calls ++ rest ∧ ∀ call ∈ rest, call.isPutOrClear = false := by
  have hcached : p.cached = p.supplied := by
    rw [cached, storeIf, hwritable, if_neg Bool.false_ne_true]
  have hend := p.end_eq
  rw [storeIf, hwritable, if_neg Bool.false_ne_true] at hend
  obtain ⟨reading, hreading, hquiet, -⟩ := exists_calls_cachedRecords p.cached conversation
  rw [p.cachedRecords_cached, hcached] at hreading
  rw [← congrArg Stores.calls hend, hreading]
  rcases fetch_cases p.fetch_eq with ⟨-, -, heq⟩ | ⟨-, reply, hask, -⟩
  · exact ⟨reading, by rw [heq], hquiet⟩
  · refine ⟨.bodies conversation p.wanted (.ok reply) :: reading, ?_, ?_⟩
    · rw [calls_askBodies hask, List.append_assoc]
      rfl
    · exact List.forall_mem_cons.mpr ⟨rfl, hquiet⟩

/-! ### A pass over an emptied cache -/

/-- If there are only records of messages of the outline once stock is taken, there are no others in the end. -/
lemma mem_nodes_of_recordsOf
    (hstocked : ∀ r ∈ p.stocked.cache.inner.recordsOf conversation, r.id ∈ p.outline.nodes) :
    ∀ r ∈ s'.cache.inner.recordsOf conversation, r.id ∈ p.outline.nodes := by
  have keeps := (keeps_memory conversation fun r => r.id ∈ p.outline.nodes).scripted
  have hbatch : ∀ r ∈ p.batch, r.id ∈ p.outline.nodes := fun r hr => (p.of_mem_batch_or_lost (Or.inl hr)).2
  have hlost : ∀ r ∈ p.assembly.lost, r.id ∈ p.outline.nodes :=
    fun r hr => (p.of_mem_batch_or_lost (Or.inr hr)).2
  have hsupplied : ∀ r ∈ p.supplied.cache.inner.recordsOf conversation, r.id ∈ p.outline.nodes := by
    rw [p.supplied_eq]
    exact hstocked
  exact keeps.of_cacheSteps (((p.cacheSteps_cached _ hbatch).trans (p.cacheSteps_checked _)).trans
    (p.cacheSteps_end _ hlost)) hsupplied

end Pass

/-! ### Synchronising -/

/-- Whether the pass fails or not, it goes on from where stock is taken. If the cache may not be written to, it is
only read from there on. -/
lemma exists_calls_refreshChanged (hask : s.askOutline conversation = (.ok o, asked)) :
    ∃ rest, (s.refreshChanged conversation).2.calls = (asked.takeStock conversation o).2.calls ++ rest ∧
      ((asked.takeStock conversation o).1.writable = false → ∀ call ∈ rest, call.isPutOrClear = false) := by
  cases hpass : s.refreshChanged conversation with
  | mk reply s' =>
    cases reply with
    | error e =>
      rcases refreshChanged_error_cases hpass with hask' | ⟨o', asked', hask', hfetch⟩
      · cases hask.symm.trans hask'
      · cases hask.symm.trans hask'
        obtain ⟨bodies, hcalls, -⟩ := fetch_error hfetch
        exact ⟨_, hcalls, fun _ => by simp [Call.isPutOrClear]⟩
    | ok outcome =>
      obtain ⟨p, -⟩ := exists_pass hpass
      cases hask.symm.trans p.askOutline_eq
      rw [p.takeStock_eq]
      cases hwritable : p.holdings.writable with
      | false =>
        obtain ⟨rest, hrest, hquiet⟩ := p.exists_calls_of_not_writable hwritable
        exact ⟨rest, hrest, fun _ => hquiet⟩
      | true =>
        obtain ⟨-, -, hsupplied, hcached, hchecked, hend⟩ := p.calls_isPrefix
        obtain ⟨rest, hrest⟩ := hsupplied.trans (hcached.trans (hchecked.trans hend))
        exact ⟨rest, hrest.symm, fun hfalse => absurd hfalse (by simp)⟩

/-- If the outline comes, and more records of the conversation are read from the cache than it has messages, then
the records of the conversation are dropped before any other call is made. If that fails, nothing is written to the
cache in this pass, and it is not cleared either. If it succeeds, and synchronising does with a differential pass,
all records of the conversation that are in the cache in the end are of messages of the outline. -/
theorem dropped_of_outnumbered (hs : s.degraded = false) (hkeyed : s.cache.inner.Keyed)
    (hask : s.askOutline conversation = (.ok o, asked))
    (hread : asked.callRead conversation = (.ok records, read)) (hmore : o.size < records.length) :
    ∃ dropped rest, (s.refreshChanged conversation).2.calls = s.calls ++ .outline conversation (.ok o) ::
        .read conversation (.ok records) :: .drop conversation dropped :: rest ∧
      (∀ e, dropped = .error e → ∀ call ∈ rest, call.isPutOrClear = false) ∧
      (dropped = .ok () → ∀ t report s', s.refresh conversation = (.ok (t, report), s') →
        report.mode = .differential → ∀ r ∈ s'.cache.inner.recordsOf conversation, r.id ∈ o.nodes) := by
  obtain ⟨-, hcache, hdegraded⟩ := askOutline_frame hask
  have hrecords : records = s.cache.inner.recordsOf conversation := by
    have hreply : (Cache.read conversation asked.cache).1 = .ok records := congrArg Prod.fst hread
    rw [← hcache]
    exact (Except.ok.inj (of_pass_ok hreply).1).symm
  have hsize : o.size < (Record.byId records).size := by
    rwa [hrecords, hkeyed.size_byId, ← hrecords]
  obtain ⟨hstocked, hwritable⟩ := takeStock_of_outnumbered (hdegraded.trans hs) hread hsize
  obtain ⟨rest, hrest, hquiet⟩ := exists_calls_refreshChanged hask
  refine ⟨(read.callDrop conversation).1, rest, ?_, fun e he => hquiet ?_, fun hok t report s' h hmode => ?_⟩
  · rw [hrest, calls_takeStock_of_outnumbered hs hask hread hsize, List.append_assoc]
    rfl
  · rw [he] at hwritable
    simpa using hwritable
  · obtain ⟨p, -⟩ := exists_pass_of_refresh h hmode
    cases hask.symm.trans p.askOutline_eq
    refine p.mem_nodes_of_recordsOf fun r hr => ?_
    have hempty : p.stocked.cache.inner.recordsOf conversation = [] := by
      rw [← show (p.asked.takeStock conversation p.outline).2 = p.stocked by rw [p.takeStock_eq], hstocked,
        inner_callDrop_of_ok (Prod.ext hok rfl), Memory.recordsOf_drop_self]
    rw [hempty] at hr
    cases hr

/-- A cache with three records of the conversation, of which one is outdated and two are of messages that are gone,
and no room for more. The first write fails as if it was full. -/
def outdated : Scripted Memory where
  inner := ({ quota := some 3 } : Memory).written [Record.own "c" (Message.ask "What?" "a" 0) 0,
    Record.own "c" (Message.ask "Who?" "y" 0) 0, Record.own "c" (Message.ask "When?" "z" 0) 0]
  puts := [some .cacheFull]

/-- After the exchange was synchronised, nothing is left of the messages that are gone. -/
theorem dropped_of_outnumbered_exchange :
    ∃ t report s', (withExchange outdated).refresh "c" = (.ok (t, report), s') ∧ report.mode = .differential ∧
      (s'.cache.inner.recordsOf "c").length = 2 ∧
      ∀ r ∈ s'.cache.inner.recordsOf "c", r.id ∈ (Tree.ofHistory exchange).outline.nodes := by
  let s := withExchange outdated
  obtain ⟨hask, -⟩ := askOutline_of_honest (honest_withExchange outdated).1 (honest_withExchange outdated).2
  have hmore : (Tree.ofHistory exchange).outline.size < (s.cache.inner.recordsOf "c").length := by
    decide +kernel
  obtain ⟨dropped, rest, hcalls, -, hsurvivors⟩ := dropped_of_outnumbered (s := s) rfl
    ((Memory.keyed_clear { quota := some 3 }).written _) (Prod.ext hask rfl) rfl hmore
  have hdropped : dropped = .ok () := by
    have hnone : ∀ call ∈ (s.refreshChanged "c").2.calls.take 3, ¬ call.FailsToWrite := by decide +kernel
    rw [hcalls] at hnone
    cases dropped with
    | ok => rfl
    | error e => exact absurd trivial (hnone (.drop "c" (.error e)) (by simp [s, withExchange]))
  have hdifferential : (s.refresh "c").1.toOption.map (fun outcome => outcome.2.mode) = some .differential := by
    decide +kernel
  obtain ⟨t, report, hrefresh, hmode⟩ := exists_refresh_of_mode hdifferential
  have hlength : ((s.refresh "c").2.cache.inner.recordsOf "c").length = 2 := by decide +kernel
  exact ⟨t, report, _, hrefresh, hmode, hlength, hsurvivors hdropped t report _ hrefresh hmode⟩

end DialogueSync.Client.Stores
