import DialogueSync.Proofs.Client.Course
import DialogueSync.Proofs.Client.Failure

/-!
# What is asked of the remote store

Synchronising asks at most three questions, each at most once and in a fixed order: for the outline, for the bodies
that are wanted, and for the whole conversation. How the calls of a differential pass follow each other is said by
`Survey`: the records in hand are settled by the first calls on the cache (`Stocktaking`), and what is wanted of the
remote store is what they lack. So no body is asked for without need, and none is left out (`economical_refresh`).
-/

namespace DialogueSync.Client

open Cache (Record)

/-! ### Calls -/

/-- The place of a question among those of a synchronisation. -/
def Call.stage? : Call → Option Nat
  | .outline .. => some 0
  | .bodies .. => some 1
  | .snapshot .. => some 2
  | .save .. | .read .. | .put .. | .drop .. | .clear .. => none

/-- The calls by which a pass takes stock of the cache, and the records that are in hand after them. -/
inductive Stocktaking (conversation : String) (o : Outline) : List Call → List Record → Prop where
  /-- The records cannot be read. -/
  | unread (e : Failure) : Stocktaking conversation o [.read conversation (.error e)] []
  /-- The records that are read are kept. -/
  | read {records : List Record} (hfew : (Record.byId records).size ≤ o.size) :
      Stocktaking conversation o [.read conversation (.ok records)] records
  /-- More records are read than the outline has messages, and they are dropped. -/
  | dropped {records : List Record} (hmore : o.size < (Record.byId records).size) :
      Stocktaking conversation o
        [.read conversation (.ok records), .drop conversation (.ok ())] []
  /-- They cannot be dropped, and stay in hand. -/
  | stuck {records : List Record} (hmore : o.size < (Record.byId records).size) (e : Failure) :
      Stocktaking conversation o
        [.read conversation (.ok records), .drop conversation (.error e)] records

/-- The outline has the message, and no record with its fingerprint is among those in hand. -/
def Lacks (o : Outline) (records : List Record) (id : String) : Prop :=
  ∃ n : Node, o.nodes[id]? = some n ∧
    ∀ r : Record, (Record.byId records)[id]? = some r → r.fingerprint ≠ n.fingerprint

/-- The calls of a differential pass. -/
inductive Survey (conversation : String) : List Call → Prop where
  /-- The outline does not come. -/
  | unanswered (e : Failure) : Survey conversation [.outline conversation (.error e)]
  /-- The records in hand lack nothing, and all that follows is between the pass and the cache. -/
  | content {o : Outline} {stock after : List Call} {records : List Record}
      (hstock : Stocktaking conversation o stock records) (hnone : ∀ id, ¬ Lacks o records id)
      (hafter : ∀ call ∈ after, call.IsLocal) :
      Survey conversation (.outline conversation (.ok o) :: (stock ++ after))
  /-- What the records in hand lack is asked for. -/
  | asking {o : Outline} {stock after : List Call} {records : List Record} {ids : List String}
      {reply : Except Failure (List Message)} (hstock : Stocktaking conversation o stock records)
      (hids : ids ≠ []) (hmem : ∀ id, id ∈ ids ↔ Lacks o records id)
      (hsorted : ids.Pairwise fun a b => compare a b = .lt) (hafter : ∀ call ∈ after, call.IsLocal) :
      Survey conversation
        (.outline conversation (.ok o) :: (stock ++ .bodies conversation ids reply :: after))

/-- The questions among the calls of a synchronisation, which begins in a certain state, are few and well chosen. -/
structure Economical {ρ κ : Type} [Remote ρ] [Cache κ] (s : Stores ρ κ) (conversation : String)
    (made : List Call) : Prop where
  /-- At most one outline, at most one batch of bodies and at most one whole conversation are asked for, in this
  order. -/
  pairwise_stages : (made.filterMap Call.stage?).Pairwise (· < ·)
  /-- The whole conversation is asked for exactly if the cache was given up at the start, or the differential pass
  fails. -/
  snapshot_iff : (∃ c reply, .snapshot c reply ∈ made) ↔
    s.degraded = true ∨ ∃ e, (s.refreshChanged conversation).1 = .error e
  /-- The bodies that are asked for are those that the records in hand lack, in the order of their ids, and there are
  some. -/
  of_bodies : ∀ c ids reply, .bodies c ids reply ∈ made → c = conversation ∧
    ∃ o stock records after, made = .outline conversation (.ok o) ::
        (stock ++ .bodies conversation ids reply :: after) ∧
      Stocktaking conversation o stock records ∧ ids ≠ [] ∧
      (∀ id, id ∈ ids ↔ Lacks o records id) ∧ ids.Pairwise fun a b => compare a b = .lt
  /-- Once the outline has come, stock is taken, and bodies are asked for if the records in hand lack any. -/
  of_outline : ∀ c o, .outline c (.ok o) ∈ made → c = conversation ∧
    ∃ stock records after, made = .outline conversation (.ok o) :: (stock ++ after) ∧
      Stocktaking conversation o stock records ∧
      ((∃ id, Lacks o records id) → ∃ ids reply, .bodies conversation ids reply ∈ after)

/-! ### Calls on the cache -/

section Calls

variable {call : Call} {calls : List Call} {conversation : String} {o : Outline} {records : List Record}

/-- What is between the client and its cache is no question to the remote store. -/
lemma Call.stage?_eq_none (h : call.IsLocal) : call.stage? = none := by
  cases call with
  | read => rfl
  | put => rfl
  | drop => rfl
  | clear => rfl
  | _ => exact h.elim

/-- Calls on the cache are no questions at all. -/
lemma filterMap_stage?_eq_nil (h : ∀ call ∈ calls, call.IsLocal) : calls.filterMap Call.stage? = [] := by
  rw [List.filterMap_eq_nil_iff]
  intro call hcall
  exact Call.stage?_eq_none (h call hcall)

/-- To take stock of the cache asks the remote store nothing. -/
lemma Stocktaking.isLocal (h : Stocktaking conversation o calls records) : ∀ call ∈ calls, call.IsLocal := by
  intro call hcall
  cases h with
  | unread e =>
    rw [List.mem_singleton.mp hcall]
    trivial
  | read =>
    rw [List.mem_singleton.mp hcall]
    trivial
  | dropped =>
    rcases List.mem_pair.mp hcall with rfl | rfl
    · trivial
    · trivial
  | stuck =>
    rcases List.mem_pair.mp hcall with rfl | rfl
    · trivial
    · trivial

/-! ### The questions of a synchronisation -/

variable {pass whole : List Call}

/-- A pass asks for the outline, and perhaps for bodies after it. -/
lemma Survey.stages (h : Survey conversation pass) :
    pass.filterMap Call.stage? = [0] ∨ pass.filterMap Call.stage? = [0, 1] := by
  cases h with
  | unanswered e => exact Or.inl rfl
  | content hstock hnone hafter =>
    have hlocal := filterMap_stage?_eq_nil (List.forall_mem_append.mpr ⟨hstock.isLocal, hafter⟩)
    refine Or.inl ?_
    rw [List.filterMap_cons, hlocal]
    rfl
  | asking hstock hids hmem hsorted hafter =>
    refine Or.inr ?_
    rw [List.filterMap_cons, List.filterMap_append, filterMap_stage?_eq_nil hstock.isLocal, List.filterMap_cons,
      filterMap_stage?_eq_nil hafter]
    rfl

/-- A pass does not ask for the whole conversation. -/
lemma Survey.snapshot_not_mem (h : Survey conversation pass) (c : String) (reply : Except Failure Snapshot) :
    .snapshot c reply ∉ pass := by
  intro hmem
  have htwo : 2 ∈ pass.filterMap Call.stage? := List.mem_filterMap.mpr ⟨_, hmem, rfl⟩
  rcases h.stages with hstages | hstages
  · simp [hstages] at htwo
  · simp [hstages] at htwo

/-- Of the calls of a pass only those that ask for what is lacking ask for bodies. -/
lemma Survey.of_bodies (h : Survey conversation pass) {c : String} {ids : List String}
    {reply : Except Failure (List Message)} (hcall : .bodies c ids reply ∈ pass) :
    c = conversation ∧ ∃ o stock records after, pass = .outline conversation (.ok o) ::
        (stock ++ .bodies conversation ids reply :: after) ∧
      Stocktaking conversation o stock records ∧ ids ≠ [] ∧
      (∀ id, id ∈ ids ↔ Lacks o records id) ∧ ids.Pairwise fun a b => compare a b = .lt := by
  cases h with
  | unanswered e => simp at hcall
  | content hstock hnone hafter =>
    have hlocal := List.forall_mem_append.mpr ⟨hstock.isLocal, hafter⟩
    rcases List.mem_cons.mp hcall with heq | hcall
    · cases heq
    · exact (hlocal _ hcall).elim
  | asking hstock hids hmem hsorted hafter =>
    rcases List.mem_cons.mp hcall with heq | hcall
    · cases heq
    rcases List.mem_append.mp hcall with hcall | hcall
    · exact (hstock.isLocal _ hcall).elim
    rcases List.mem_cons.mp hcall with heq | hcall
    · cases heq
      exact ⟨rfl, _, _, _, _, rfl, hstock, hids, hmem, hsorted⟩
    · exact (hafter _ hcall).elim

/-- Once the outline has come, a pass takes stock, and asks for bodies if any are lacking. -/
lemma Survey.of_outline (h : Survey conversation pass) {c : String} (hcall : .outline c (.ok o) ∈ pass) :
    c = conversation ∧ ∃ stock records after, pass = .outline conversation (.ok o) :: (stock ++ after) ∧
      Stocktaking conversation o stock records ∧
      ((∃ id, Lacks o records id) → ∃ ids reply, .bodies conversation ids reply ∈ after) := by
  cases h with
  | unanswered e => simp at hcall
  | content hstock hnone hafter =>
    have hlocal := List.forall_mem_append.mpr ⟨hstock.isLocal, hafter⟩
    rcases List.mem_cons.mp hcall with heq | hcall
    · cases heq
      exact ⟨rfl, _, _, _, rfl, hstock, fun ⟨id, hid⟩ => absurd hid (hnone id)⟩
    · exact (hlocal _ hcall).elim
  | asking hstock hids hmem hsorted hafter =>
    rcases List.mem_cons.mp hcall with heq | hcall
    · cases heq
      exact ⟨rfl, _, _, _, rfl, hstock, fun _ => ⟨_, _, List.mem_cons_self⟩⟩
    rcases List.mem_append.mp hcall with hcall | hcall
    · exact (hstock.isLocal _ hcall).elim
    rcases List.mem_cons.mp hcall with heq | hcall
    · cases heq
    · exact (hafter _ hcall).elim

/-- The calls of a full fetch: the whole conversation is asked for, and the rest is between the client and its
cache. -/
def IsFetch (conversation : String) (calls : List Call) : Prop :=
  ∃ reply after, calls = .snapshot conversation reply :: after ∧ ∀ call ∈ after, call.IsLocal

/-- The only question of a full fetch is the one for the whole conversation. -/
lemma IsFetch.stages (h : IsFetch conversation whole) : whole.filterMap Call.stage? = [2] := by
  obtain ⟨reply, after, rfl, hafter⟩ := h
  rw [List.filterMap_cons, filterMap_stage?_eq_nil hafter]
  rfl

lemma IsFetch.ne_nil (h : IsFetch conversation whole) : whole ≠ [] := by
  obtain ⟨reply, after, rfl, -⟩ := h
  exact List.cons_ne_nil _ _

/-- The only question of a full fetch is the last one. -/
lemma IsFetch.eq_two (h : IsFetch conversation whole) {n : Nat} (hcall : call ∈ whole)
    (hn : call.stage? = some n) : n = 2 := by
  have hmem : n ∈ whole.filterMap Call.stage? := List.mem_filterMap.mpr ⟨call, hcall, hn⟩
  rw [h.stages] at hmem
  exact List.mem_singleton.mp hmem

end Calls

namespace Stores

variable {ρ κ : Type} [Cache κ] {s s' : Stores ρ κ} {conversation : String} {o : Outline}

/-! ### Passes -/

/-- With a cache in use, taking stock settles which records are in hand. The cache counts as stale exactly if its
records were to be dropped. -/
lemma exists_stocktaking (hs : s.degraded = false) (conversation : String) (o : Outline) :
    ∃ stock records, (s.takeStock conversation o).2.calls = s.calls ++ stock ∧
      Stocktaking conversation o stock records ∧
      (s.takeStock conversation o).1.held = Record.byId records ∧
      ((s.takeStock conversation o).1.stale = true ↔ ∃ reply, .drop conversation reply ∈ stock) := by
  cases hread : s.callRead conversation with
  | mk reply read =>
    obtain ⟨hcalls, hdegraded⟩ := callRead_frame hread
    unfold takeStock
    rw [cachedRecords_of_callRead hs hread]
    cases reply with
    | error e =>
      -- A cache that cannot be read counts as empty, and there are never fewer messages than in an empty one.
      have hfew : ¬ o.size < (Record.byId []).size := Nat.not_lt_zero _
      refine ⟨_, _, ?_, .unread e, ?_, ?_⟩
      · simpa [Except.toOption, hfew] using hcalls
      · simp [Except.toOption, hfew]
      · simp [Except.toOption, hfew]
    | ok records =>
      by_cases hmore : o.size < (Record.byId records).size
      · cases hdrop : read.callDrop conversation with
        | mk reply dropped =>
          obtain ⟨hcalls', -⟩ := callDrop_frame hdrop
          have hboth : dropped.calls = s.calls ++ [.read conversation (.ok records), .drop conversation reply] := by
            rw [hcalls', hcalls, List.append_assoc]
            rfl
          have hin : ¬ read.degraded = true := by simp [hdegraded, hs]
          cases reply with
          | error e =>
            refine ⟨_, _, ?_, .stuck hmore e, ?_, ?_⟩
            · simpa [Except.toOption, hmore, discard, hin, hdrop] using hboth
            · simp [Except.toOption, hmore, discard, hin, hdrop]
            · simp [Except.toOption, hmore, discard, hin, hdrop]
          | ok done =>
            refine ⟨_, _, ?_, .dropped hmore, ?_, ?_⟩
            · simpa [Except.toOption, hmore, discard, hin, hdrop] using hboth
            · rw [show Record.byId [] = ∅ from IdMap.collect_nil _]
              simp [Except.toOption, hmore, discard, hin, hdrop]
            · simp [Except.toOption, hmore, discard, hin, hdrop]
      · refine ⟨_, _, ?_, .read (Nat.le_of_not_lt hmore), ?_, ?_⟩
        · simpa [Except.toOption, hmore] using hcalls
        · simp [Except.toOption, hmore]
        · simp [Except.toOption, hmore]

variable [Remote ρ]

/-- Once the bodies have come, a pass that succeeds deals with the cache only. -/
lemma Pass.exists_calls_after (p : Pass s s' conversation) :
    ∃ after, s'.calls = p.supplied.calls ++ after ∧ ∀ call ∈ after, call.IsLocal :=
  (((p.cacheSteps_cached (fun _ => True) trivial).trans (p.cacheSteps_checked _)).trans
    (p.cacheSteps_end _ trivial)).exists_calls

/-- The wanted bodies are those that the records in hand lack. -/
lemma mem_wanted_iff_lacks {records : List Record} {id : String} :
    id ∈ wanted o (Record.byId records) ↔ Lacks o records id :=
  mem_wanted_iff

/-- The calls of a pass that succeeds. -/
lemma Pass.exists_survey (p : Pass s s' conversation) (hs : s.degraded = false) :
    ∃ pass, s'.calls = s.calls ++ pass ∧ Survey conversation pass := by
  obtain ⟨hcalls, -, hdegraded⟩ := askOutline_frame p.askOutline_eq
  obtain ⟨stock, records, hstocked, hstock, hheld, -⟩ :=
    exists_stocktaking (hdegraded.trans hs) conversation p.outline
  rw [p.takeStock_eq] at hstocked hheld
  obtain ⟨after, hend, hafter⟩ := p.exists_calls_after
  have hwanted : p.wanted = Client.wanted p.outline (Record.byId records) := by rw [Pass.wanted, hheld]
  rcases fetch_cases p.fetch_eq with ⟨hnone, -, heq⟩ | ⟨hsome, reply, hask, -⟩
  · refine ⟨.outline conversation (.ok p.outline) :: (stock ++ after), ?_, .content hstock ?_ hafter⟩
    · rw [hend, heq, hstocked, hcalls]
      simp
    · intro id hid
      rw [← mem_wanted_iff_lacks, ← hwanted, Pass.wanted, hnone] at hid
      cases hid
  · refine ⟨.outline conversation (.ok p.outline) ::
      (stock ++ .bodies conversation p.wanted (.ok reply) :: after), ?_, ?_⟩
    · rw [hend, calls_askBodies hask, hstocked, hcalls]
      simp [Pass.wanted]
    · refine .asking hstock hsome ?_ Std.ExtTreeMap.ordered_keys hafter
      intro id
      rw [hwanted]
      exact mem_wanted_iff_lacks

/-- The calls of a pass that fails. -/
lemma exists_survey_of_error (hs : s.degraded = false) {e : Failure}
    (hpass : s.refreshChanged conversation = (.error e, s')) :
    ∃ pass, s'.calls = s.calls ++ pass ∧ Survey conversation pass := by
  rcases refreshChanged_error_cases hpass with hask | ⟨o, asked, hask, hfetch⟩
  · exact ⟨_, (askOutline_frame hask).1, .unanswered e⟩
  obtain ⟨hcalls, -, hdegraded⟩ := askOutline_frame hask
  obtain ⟨stock, records, hstocked, hstock, hheld, -⟩ := exists_stocktaking (hdegraded.trans hs) conversation o
  obtain ⟨reply, hfetched, -⟩ := fetch_error hfetch
  rw [hheld] at hfetch hfetched
  refine ⟨.outline conversation (.ok o) ::
    (stock ++ [.bodies conversation (wanted o (Record.byId records)) reply]), ?_, ?_⟩
  · rw [hfetched, hstocked, hcalls]
    simp
  · refine .asking hstock ?_ (fun id => mem_wanted_iff_lacks) Std.ExtTreeMap.ordered_keys (List.forall_mem_nil _)
    -- A pass that wants nothing cannot fail when it fetches.
    intro hnone
    rw [hnone, fetch, if_pos List.isEmpty_nil] at hfetch
    cases hfetch

/-- With a cache in use, the calls of a differential pass follow each other as they should. -/
lemma exists_survey (hs : s.degraded = false) (conversation : String) :
    ∃ pass, (s.refreshChanged conversation).2.calls = s.calls ++ pass ∧ Survey conversation pass := by
  cases hpass : s.refreshChanged conversation with
  | mk reply s' =>
    cases reply with
    | error e => exact exists_survey_of_error hs hpass
    | ok outcome =>
      obtain ⟨p, -⟩ := exists_pass hpass
      exact p.exists_survey hs

/-- A full fetch asks for the whole conversation, and then deals with the cache only. -/
lemma exists_calls_refreshWhole (s : Stores ρ κ) (conversation : String) :
    ∃ whole, (s.refreshWhole conversation).2.calls = s.calls ++ whole ∧ IsFetch conversation whole := by
  cases hwhole : s.refreshWhole conversation with
  | mk reply s' =>
    rcases refreshWhole_cases hwhole with ⟨e, rfl, hask⟩ | ⟨full, asked, hask, -, rfl⟩
    · exact ⟨_, (askSnapshot_frame hask).1, _, [], rfl, List.forall_mem_nil _⟩
    · have hsteps : CacheSteps conversation (fun _ => True) asked (asked.overwrite conversation
          ((treeOf full).messages.values.map (snapshotRecord conversation full asked.clock))).2 :=
        (CacheSteps.refl asked).overwrite trivial
      obtain ⟨after, hafter, hlocal⟩ := hsteps.exists_calls
      refine ⟨.snapshot conversation (.ok full) :: after, ?_, _, after, rfl, hlocal⟩
      rw [hafter, (askSnapshot_frame hask).1]
      simp

/-! ### Synchronising -/

/-- The calls of a pass, if there was one, and those of a full fetch after it, if it came to that. -/
lemma economical_append {pass whole : List Call} (hpass : pass = [] ∨ Survey conversation pass)
    (hwhole : whole = [] ∨ IsFetch conversation whole)
    (hfetch : whole ≠ [] ↔ s.degraded = true ∨ ∃ e, (s.refreshChanged conversation).1 = .error e) :
    Economical s conversation (pass ++ whole) := by
  -- The questions before the last one are those of the pass.
  have hsurvey : ∀ {call : Call} {n : Nat}, call ∈ pass ++ whole → call.stage? = some n → n ≠ 2 →
      Survey conversation pass ∧ call ∈ pass := by
    intro call n hcall hn hne
    have hmem : call ∈ pass := by
      rcases List.mem_append.mp hcall with hcall | hcall
      · exact hcall
      · exfalso
        rcases hwhole with rfl | hwhole
        · cases hcall
        · exact hne (hwhole.eq_two hcall hn)
    refine ⟨hpass.resolve_left ?_, hmem⟩
    rintro rfl
    cases hmem
  constructor
  · rw [List.filterMap_append]
    have hbefore : pass.filterMap Call.stage? = [] ∨ pass.filterMap Call.stage? = [0] ∨
        pass.filterMap Call.stage? = [0, 1] := by
      rcases hpass with rfl | hpass
      · exact Or.inl rfl
      · exact Or.inr hpass.stages
    have hlast : whole.filterMap Call.stage? = [] ∨ whole.filterMap Call.stage? = [2] := by
      rcases hwhole with rfl | hwhole
      · exact Or.inl rfl
      · exact Or.inr hwhole.stages
    rcases hbefore with h | h | h
    · rcases hlast with h' | h' <;> simp [h, h']
    · rcases hlast with h' | h' <;> simp [h, h']
    · rcases hlast with h' | h' <;> simp [h, h']
  · rw [← hfetch]
    constructor
    · rintro ⟨c, reply, hcall⟩ rfl
      rw [List.append_nil] at hcall
      rcases hpass with rfl | hpass
      · cases hcall
      · exact hpass.snapshot_not_mem c reply hcall
    · intro hne
      obtain ⟨reply, after, rfl, -⟩ := hwhole.resolve_left hne
      exact ⟨conversation, reply, by simp⟩
  · intro c ids reply hcall
    obtain ⟨hpass, hcall⟩ := hsurvey hcall rfl (by decide)
    obtain ⟨rfl, o, stock, records, after, rfl, hstock, hids, hmem, hsorted⟩ := hpass.of_bodies hcall
    exact ⟨rfl, o, stock, records, after ++ whole, by simp, hstock, hids, hmem, hsorted⟩
  · intro c o hcall
    obtain ⟨hpass, hcall⟩ := hsurvey hcall rfl (by decide)
    obtain ⟨rfl, stock, records, after, rfl, hstock, hasks⟩ := hpass.of_outline hcall
    refine ⟨rfl, stock, records, after ++ whole, by simp, hstock, ?_⟩
    intro hlacks
    obtain ⟨ids, reply, hbodies⟩ := hasks hlacks
    exact ⟨ids, reply, List.mem_append_left whole hbodies⟩

/-- Whatever the remote store and the cache answer, a synchronisation asks for the outline, for the bodies that the
records in hand lack, and for the whole conversation if that does not do, each at most once. -/
theorem economical_refresh (s : Stores ρ κ) (conversation : String) :
    ∃ made, (s.refresh conversation).2.calls = s.calls ++ made ∧ Economical s conversation made := by
  cases hs : s.degraded with
  | true =>
    obtain ⟨whole, hcalls, hwhole⟩ := exists_calls_refreshWhole s conversation
    refine ⟨[] ++ whole, ?_, economical_append (Or.inl rfl) (Or.inr hwhole) ?_⟩
    · rw [refresh, if_pos hs, hcalls, List.nil_append]
    · exact iff_of_true hwhole.ne_nil (Or.inl hs)
  | false =>
    obtain ⟨pass, hcalls, hpass⟩ := exists_survey hs conversation
    unfold refresh
    rw [if_neg (by simp [hs])]
    cases hchanged : s.refreshChanged conversation with
    | mk reply failed =>
      rw [hchanged] at hcalls
      cases reply with
      | ok outcome =>
        refine ⟨pass ++ [], ?_, economical_append (Or.inr hpass) (Or.inl rfl) ?_⟩
        · rw [List.append_nil]
          exact hcalls
        · simp [hs, hchanged]
      | error e =>
        obtain ⟨whole, hcalls', hwhole⟩ := exists_calls_refreshWhole failed conversation
        refine ⟨pass ++ whole, ?_, economical_append (Or.inr hpass) (Or.inr hwhole) ?_⟩
        · dsimp only
          rw [hcalls', hcalls, List.append_assoc]
        · exact iff_of_true hwhole.ne_nil (Or.inr ⟨e, by rw [hchanged]⟩)

end Stores

end DialogueSync.Client
