import DialogueSync.Cache.Memory
import DialogueSync.Proofs.Client.Soundness
import DialogueSync.Remote.Archive
import DialogueSync.Remote.Scripted

/-!
# Responses in flight that survive a reload

When the open conversation is reloaded, the messages on the way to each response in flight are placed one after
the other into the synchronised tree, as far as they are not there; the response itself is placed in any case. A
placing is refused if the parent of the message stands below it in the tree that has come about by then.

A response in flight that is not synchronised complete therefore keeps its local body exactly if one of the
placings tried for it is accepted (`Placed`), since nothing that is placed is lost again. Otherwise it is there
as it was synchronised, or not at all (`survives_iff`). Every response gets through unless a chain of parents,
each taken from one of the two trees, leads from it back to itself.
-/

namespace DialogueSync.Client

open Cache (Memory)
open DialogueSync.Tree (Linked isWithin parentIn climb)
open Message (SameBody)

variable {opened synced t : Tree} {id x : String} {ids : List String} {m : Message}

/-! ### Placings -/

/-- The tree takes the message in: its parent does not stand below it. -/
def Takes (t : Tree) (m : Message) : Prop :=
  ∀ parent, m.parent = some parent → parent ∈ t.messages → ¬ isWithin t.messages parent m.id

/-- A message is placed exactly if the tree takes it in. -/
lemma exists_place_iff (h : Linked t.messages) : (∃ t', t.place m = .ok t') ↔ Takes t m := by
  have hparent : ∀ parent, (t.hung m.parent m).parent = some parent ↔
      m.parent = some parent ∧ parent ∈ t.messages := fun parent => Option.filter_eq_some_iff
  rcases Tree.insert_cases h m.parent m with ⟨parent, hp, hwithin, herror⟩ | ⟨hfree, hok⟩
  · refine iff_of_false ?_ fun htakes => ?_
    · rintro ⟨t', hplace⟩
      cases herror.symm.trans hplace
    · obtain ⟨hp, hmem⟩ := (hparent parent).mp hp
      exact htakes parent hp hmem hwithin
  · exact iff_of_true ⟨_, hok⟩ fun parent hp hmem => hfree parent ((hparent parent).mpr ⟨hp, hmem⟩)

/-- While the responses `ids` are carried over, one of which the tree does not have complete by then, the
message is on the way to it, and it is to be placed into the tree `t`. -/
def Tries (opened synced : Tree) (ids : List String) (m : Message) (t : Tree) : Prop :=
  ∃ before id after above below, ids = before ++ id :: after ∧ opened.path id = above ++ m :: below ∧
    ¬ HasDone (before.foldl (carryResponse opened) synced) id ∧
    t = carryOver (before.foldl (carryResponse opened) synced) id above ∧
    (m.id = id ∨ m.id ∉ t.messages)

/-- While the responses are carried over, the message is placed. -/
def Placed (opened synced : Tree) (ids : List String) (m : Message) : Prop :=
  ∃ t, Tries opened synced ids m t ∧ Takes t m

/-- What is placed for some responses is placed for more of them. -/
lemma Placed.append (h : Placed opened synced ids m) (more : List String) :
    Placed opened synced (ids ++ more) m := by
  obtain ⟨t, ⟨before, id, after, above, below, rfl, htry⟩, htakes⟩ := h
  refine ⟨t, ⟨before, id, after ++ more, above, below, ?_, htry⟩, htakes⟩
  rw [List.append_assoc, List.cons_append]

lemma carryOver_nil (t : Tree) (id : String) : carryOver t id [] = t :=
  rfl

/-- What is before a message on the way is carried over before it, and what is behind it afterwards. -/
lemma carryOver_append_cons (t : Tree) (id : String) (above below : List Message) (m : Message) :
    carryOver t id (above ++ m :: below) =
      carryOver (carryMessage id (carryOver t id above) m) id below := by
  simp only [carryOver_eq_foldl, List.foldl_append, List.foldl_cons]

/-- A message that the tree takes in is placed when its turn comes. -/
lemma carryMessage_of_takes (ht : Linked t.messages) (hwhy : m.id = id ∨ m.id ∉ t.messages)
    (htakes : Takes t m) : t.place m = .ok (carryMessage id t m) := by
  obtain ⟨t', hplace⟩ := (exists_place_iff ht).mpr htakes
  have hcond : (decide (m.id = id) || !t.contains m.id) = true := by
    rw [Bool.or_eq_true, decide_eq_true_eq, Bool.not_eq_true']
    refine hwhy.imp_right fun hnot => ?_
    rw [← Bool.not_eq_true]
    exact hnot
  rw [carryMessage, if_pos hcond, hplace]
  rfl

/-- What is placed goes on to have its body. -/
lemma Placed.hasBodyOf (hopened : Linked opened.messages) (hsynced : Linked synced.messages)
    (h : Placed opened synced ids m) : HasBodyOf (ids.foldl (carryResponse opened) synced) m := by
  obtain ⟨t, ⟨before, id, after, above, below, rfl, hpath, hopen, rfl, hwhy⟩, htakes⟩ := h
  have hway : ∀ m' ∈ above ++ m :: below, opened.get? m'.id = some m' := fun m' hm' =>
    Tree.get?_of_mem_path hopened.keyed (hpath ▸ hm')
  have hm := hway m (List.mem_append_right _ List.mem_cons_self)
  have hblend := (Blend.refl hsynced).responses hopened before
  rw [List.foldl_append, List.foldl_cons]
  refine HasBodyOf.responses hopened hm (hblend.response hopened id) ?_ after
  rw [((carryResponse_cases opened _ id).resolve_left fun h => hopen h.1).2, hpath, carryOver_append_cons]
  have hlinked := linked_carryOver hblend.linked id above
  have hplace := carryMessage_of_takes hlinked hwhy htakes
  refine HasBodyOf.way hm (linked_carryMessage hlinked id m) (hasBodyOf_insert_self hlinked hplace) ?_ id
  exact fun m' hm' => hway m' (List.mem_append_right _ (List.mem_cons_of_mem _ hm'))

/-! ### Where a message comes from -/

/-- The message is `src` with another place, and if it has a parent, this is the one of `src`. -/
structure Descends (src m : Message) : Prop where
  /-- The body is the same. -/
  sameBody : SameBody src m
  /-- The parent is the same, if there is one. -/
  parent_eq : ∀ parent, m.parent = some parent → src.parent = some parent

lemma Descends.refl (m : Message) : Descends m m :=
  ⟨SameBody.refl m, fun _ => id⟩

lemma Descends.trans {m₁ m₂ m₃ : Message} (h : Descends m₁ m₂) (h' : Descends m₂ m₃) : Descends m₁ m₃ :=
  ⟨h.sameBody.trans h'.sameBody, fun parent hp => h.parent_eq parent (h'.parent_eq parent hp)⟩

/-- On the way to a response a message is left as it was, or placed. -/
lemma exists_of_get?_carryOver (ht : Linked t.messages) {way : List Message}
    (hm : (carryOver t id way).get? x = some m) :
    (∃ old, t.get? x = some old ∧ Descends old m) ∨
      ∃ src above below, way = above ++ src :: below ∧ src.id = x ∧ Descends src m ∧
        (src.id = id ∨ src.id ∉ (carryOver t id above).messages) ∧ Takes (carryOver t id above) src := by
  induction way using List.reverseRecOn generalizing m with
  | nil => exact Or.inl ⟨m, hm, Descends.refl m⟩
  | append_singleton above last ih =>
    have hlinked := linked_carryOver ht id above
    rw [carryOver_append_cons, carryOver_nil] at hm
    -- What was there before the last step has come there in one of the two ways.
    have hbefore : ∀ {m' : Message}, (carryOver t id above).get? x = some m' → Descends m' m →
        (∃ old, t.get? x = some old ∧ Descends old m) ∨
          ∃ src above' below, above ++ [last] = above' ++ src :: below ∧ src.id = x ∧ Descends src m ∧
            (src.id = id ∨ src.id ∉ (carryOver t id above').messages) ∧
            Takes (carryOver t id above') src := by
      intro m' hm' hdesc
      refine (ih hm').imp (fun ⟨old, hold, h⟩ => ⟨old, hold, h.trans hdesc⟩) ?_
      rintro ⟨src, above', below, rfl, hid, h, hwhy⟩
      exact ⟨src, above', below ++ [last], by simp, hid, h.trans hdesc, hwhy⟩
    rcases carryMessage_cases id (carryOver t id above) last with heq | ⟨t', hplace, heq, hwhy⟩
    · rw [heq] at hm
      exact hbefore hm (Descends.refl m)
    · rw [heq] at hm
      by_cases hx : x = last.id
      · subst hx
        obtain ⟨placed, hplaced, hsame, hparent⟩ := Tree.get?_insert_self hlinked hplace
        obtain rfl := Option.some.inj (hplaced.symm.trans hm)
        refine Or.inr ⟨last, above, [], rfl, rfl, ⟨hsame, fun parent hp => ?_⟩, hwhy, ?_⟩
        · exact (Option.filter_eq_some_iff.mp (hparent.symm.trans hp)).1
        · exact (exists_place_iff hlinked).mp ⟨t', hplace⟩
      · obtain ⟨old, hold, hsame, hparent⟩ := Tree.get?_insert_of_ne hlinked hplace hx hm
        exact hbefore hold ⟨hsame, fun parent hp => hparent.symm.trans hp⟩

/-- Every message of the tree into which the responses are carried over is as it was synchronised, or it has been
placed. -/
lemma exists_of_get?_carryResponses (hopened : Linked opened.messages) (hsynced : Linked synced.messages)
    (hm : (ids.foldl (carryResponse opened) synced).get? x = some m) :
    ∃ src, Descends src m ∧
      (synced.get? x = some src ∨ opened.get? x = some src ∧ Placed opened synced ids src) := by
  induction ids using List.reverseRecOn generalizing m with
  | nil => exact ⟨m, Descends.refl m, Or.inl hm⟩
  | append_singleton before id ih =>
    have hlinked := ((Blend.refl hsynced).responses hopened before).linked
    rw [List.foldl_append, List.foldl_cons, List.foldl_nil] at hm
    have hbefore : ∀ {m' : Message}, (before.foldl (carryResponse opened) synced).get? x = some m' →
        Descends m' m → ∃ src, Descends src m ∧
          (synced.get? x = some src ∨ opened.get? x = some src ∧ Placed opened synced (before ++ [id]) src) := by
      intro m' hm' hdesc
      obtain ⟨src, h, hsrc⟩ := ih hm'
      exact ⟨src, h.trans hdesc, hsrc.imp_right fun ⟨hget, hplaced⟩ => ⟨hget, hplaced.append [id]⟩⟩
    rcases carryResponse_cases opened (before.foldl (carryResponse opened) synced) id with
      ⟨-, heq⟩ | ⟨hopen, heq⟩
    · rw [heq] at hm
      exact hbefore hm (Descends.refl m)
    · rw [heq] at hm
      rcases exists_of_get?_carryOver hlinked hm with
        ⟨old, hold, hdesc⟩ | ⟨src, above, below, hway, rfl, hdesc, hwhy, htakes⟩
      · exact hbefore hold hdesc
      · have hsrc : opened.get? src.id = some src := Tree.get?_of_mem_path hopened.keyed
          (hway ▸ List.mem_append_right _ List.mem_cons_self)
        exact ⟨src, hdesc, Or.inr ⟨hsrc, _, ⟨before, id, [], above, below, rfl, hway, hopen, rfl, hwhy⟩,
          htakes⟩⟩

/-! ### The turn of a response -/

/-- The parent of a message in one of the two trees. -/
def ParentInEither (opened synced : Tree) (id parent : String) : Prop :=
  parentIn opened.messages id = some parent ∨ parentIn synced.messages id = some parent

/-- Every link of a tree that comes about is one of the two trees. -/
lemma parentInEither_carryOver (hopened : Linked opened.messages) (hsynced : Linked synced.messages)
    {way : List Message} (hway : ∀ m ∈ way, opened.get? m.id = some m) {parent : String}
    (hp : parentIn (carryOver (ids.foldl (carryResponse opened) synced) id way).messages x = some parent) :
    ParentInEither opened synced x parent := by
  have hlinked := ((Blend.refl hsynced).responses hopened ids).linked
  obtain ⟨m, hm, hp⟩ := Option.bind_eq_some_iff.mp hp
  have hlink : ∀ {t : Tree} {src : Message}, t.get? x = some src → Descends src m →
      parentIn t.messages x = some parent := fun hsrc hdesc =>
    (Tree.parentIn_of_get? hsrc).trans (hdesc.parent_eq parent hp)
  rcases exists_of_get?_carryOver hlinked hm with ⟨old, hold, hdesc⟩ | ⟨src, above, below, rfl, rfl, hdesc, -⟩
  · obtain ⟨src, hdesc', hsrc | ⟨hsrc, -⟩⟩ := exists_of_get?_carryResponses hopened hsynced hold
    · exact Or.inr (hlink hsrc (hdesc'.trans hdesc))
    · exact Or.inl (hlink hsrc (hdesc'.trans hdesc))
  · exact Or.inl (hlink (hway src (List.mem_append_right _ List.mem_cons_self)) hdesc)

/-- The way up in a tree is a chain of its links. -/
lemma reflTransGen_of_climb {link : String → Option String} {R : String → String → Prop}
    (h : ∀ x parent, link x = some parent → R x parent) {count : Nat} {top : String}
    (hup : climb link count x = some top) : Relation.ReflTransGen R x top := by
  induction count generalizing x with
  | zero =>
    obtain rfl := Option.some.inj hup
    exact Relation.ReflTransGen.refl
  | succ count ih =>
    rw [Tree.climb_succ] at hup
    obtain ⟨parent, hp, hup⟩ := Option.bind_eq_some_iff.mp hup
    exact Relation.ReflTransGen.head (h x parent hp) (ih hup)

/-- A response is placed at its turn, unless a chain of parents leads back to it. -/
lemma placed_of_not_transGen (hopened : Linked opened.messages) (hsynced : Linked synced.messages)
    (hid : m.id ∈ ids) (hm : opened.get? m.id = some m) (hsync : ¬ HasDone synced m.id)
    (hfree : ¬ Relation.TransGen (ParentInEither opened synced) m.id m.id) :
    Placed opened synced ids m := by
  obtain ⟨before, after, rfl⟩ := List.append_of_mem hid
  by_cases hdone : HasDone (before.foldl (carryResponse opened) synced) m.id
  · -- Then it has been placed before its turn, on the way to another response.
    obtain ⟨m', hm', hdone⟩ := hdone
    obtain ⟨src, hdesc, hsrc | ⟨hsrc, hplaced⟩⟩ := exists_of_get?_carryResponses hopened hsynced hm'
    · exact absurd ⟨src, hsrc, hdesc.sameBody.done_eq.trans hdone⟩ hsync
    · obtain rfl := Option.some.inj (hm.symm.trans hsrc)
      exact hplaced.append _
  · obtain ⟨above, hpath⟩ : ∃ above, opened.path m.id = above ++ [m] := ⟨_, Tree.path_eq hopened hm⟩
    refine ⟨_, ⟨before, m.id, after, above, [], rfl, hpath, hdone, rfl, Or.inl rfl⟩, ?_⟩
    intro parent hp hmem hwithin
    obtain ⟨count, hup⟩ := Tree.isWithin_iff.mp hwithin
    have hway : ∀ m' ∈ above, opened.get? m'.id = some m' := fun m' hm' =>
      Tree.get?_of_mem_path hopened.keyed (hpath ▸ List.mem_append_left _ hm')
    have hlinks : ∀ x parent, parentIn (carryOver (before.foldl (carryResponse opened) synced) m.id
        above).messages x = some parent → ParentInEither opened synced x parent :=
      fun _ _ hp => parentInEither_carryOver hopened hsynced hway hp
    have hchain := reflTransGen_of_climb hlinks hup
    exact hfree (Relation.TransGen.head' (Or.inl ((Tree.parentIn_of_get? hm).trans hp)) hchain)

/-! ### Survival -/

/-- The second message has the content, the figures and the error of the first, and is complete if that is. -/
structure Reads (m m' : Message) : Prop where
  done_eq : m'.done = m.done
  content_eq : m'.content = m.content
  usage_eq : m'.usage = m.usage
  error_eq : m'.error = m.error

lemma Reads.trans {m₁ m₂ m₃ : Message} (h : Reads m₁ m₂) (h' : Reads m₂ m₃) : Reads m₁ m₃ :=
  ⟨h'.done_eq.trans h.done_eq, h'.content_eq.trans h.content_eq, h'.usage_eq.trans h.usage_eq,
    h'.error_eq.trans h.error_eq⟩

lemma Reads.symm {m m' : Message} (h : Reads m m') : Reads m' m :=
  ⟨h.done_eq.symm, h.content_eq.symm, h.usage_eq.symm, h.error_eq.symm⟩

lemma reads_of_sameBody {m m' : Message} (h : SameBody m m') : Reads m m' :=
  ⟨(congrArg Message.done h).symm, (congrArg Message.content h).symm, (congrArg Message.usage h).symm,
    (congrArg Message.error h).symm⟩

/-- The tree shows a message as it is. -/
def ShowsAs (t : Tree) (m : Message) : Prop :=
  ∃ m', t.get? m.id = some m' ∧ Reads m m'

/-- A response in flight that is not synchronised complete is shown afterwards as it was before exactly if it has
been placed, or was synchronised like that. -/
lemma showsAs_carryInFlight_iff (hopened : Linked opened.messages) (hsynced : Linked synced.messages)
    (streams : Streams) (hm : opened.get? m.id = some m) :
    ShowsAs (carryInFlight opened streams synced) m ↔
      Placed opened synced streams.active m ∨ ShowsAs synced m := by
  rw [carryInFlight_eq_foldl]
  constructor
  · rintro ⟨m', hm', hreads⟩
    obtain ⟨src, hdesc, hsrc | ⟨hsrc, hplaced⟩⟩ := exists_of_get?_carryResponses hopened hsynced hm'
    · exact Or.inr ⟨src, hsrc, hreads.trans (reads_of_sameBody hdesc.sameBody).symm⟩
    · obtain rfl := Option.some.inj (hm.symm.trans hsrc)
      exact Or.inl hplaced
  · rintro (hplaced | ⟨m', hm', hreads⟩)
    · obtain ⟨m', hm', hsame⟩ := hplaced.hasBodyOf hopened hsynced
      exact ⟨m', hm', reads_of_sameBody hsame⟩
    · have hblend := (Blend.refl hsynced).responses hopened streams.active
      obtain ⟨new, hnew⟩ := Tree.mem_iff_exists_get?.mp
        (hblend.mem_of_synced m.id (Tree.mem_iff_exists_get?.mpr ⟨m', hm'⟩))
      refine ⟨new, hnew, ?_⟩
      obtain ⟨src, hdesc, hsrc | ⟨hsrc, -⟩⟩ := exists_of_get?_carryResponses hopened hsynced hnew
      · obtain rfl := Option.some.inj (hm'.symm.trans hsrc)
        exact hreads.trans (reads_of_sameBody hdesc.sameBody)
      · obtain rfl := Option.some.inj (hm.symm.trans hsrc)
        exact reads_of_sameBody hdesc.sameBody

namespace Session

variable {ρ κ : Type} [Remote ρ] [Cache κ]

/-- In every state that a session can reach, when the open conversation is reloaded with success, a response in
flight that is shown and was not synchronised complete is shown afterwards as it was exactly if one of the
placings tried for it was accepted, or it was synchronised like that. This is so in any case unless a chain of
parents, each in the tree that was open or in the synchronised one, leads from it back to it. -/
theorem survives_iff (stores : Stores ρ κ) (settings : Settings) (events : List Event) (now : Int64)
    {conversation : String} {tree : Tree} {report : Report} {m : Message} :
    let start : Session ρ κ := { stores := stores, settings := settings }
    let s := (start.runTimed events).atTime now
    let t := (s.load conversation).tree
    s.conversation = some conversation → (s.stores.refresh conversation).1 = .ok (tree, report) →
    s.tree.get? m.id = some m → s.streams.isActive m.id → ¬ HasDone tree m.id →
      (ShowsAs t m ↔ Placed s.tree tree s.streams.active m ∨ ShowsAs tree m) ∧
      (¬ Relation.TransGen (ParentInEither s.tree tree) m.id m.id → ShowsAs t m) := by
  intro start s t hopen hok hm hactive hsync
  have hs : Sound s := ((Sound.of_eq_empty rfl).runTimed events).atTime now
  obtain ⟨stores', hrefresh⟩ : ∃ stores', s.stores.refresh conversation = (.ok (tree, report), stores') :=
    ⟨_, Prod.ext hok rfl⟩
  have hsynced := (Stores.wellFormed_of_refresh hrefresh).toLinked
  have htree : t = carryInFlight s.tree s.streams tree := congrArg Session.tree (load_of_ok hopen hrefresh)
  have hiff := showsAs_carryInFlight_iff hs.linked hsynced s.streams hm
  rw [htree, hiff]
  refine ⟨Iff.rfl, fun hfree => Or.inl ?_⟩
  exact placed_of_not_transGen hs.linked hsynced
    (Std.ExtTreeMap.mem_keys.mpr (Std.ExtTreeMap.contains_iff_mem.mp hactive)) hm hsync hfree

/-- What the user asks first. -/
def question : Message :=
  { id := "a", role := .user, content := "Why?", createdAt := 1, done := true }

/-- The conversation is loaded, an answer is awaited, and some of it comes. -/
def answeringEvents : List Event :=
  [⟨1, .load "c"⟩, ⟨2, .attach (some "a") (Message.await "model" "b" 2)⟩,
    ⟨3, .receive "b" { content := some "Be" }⟩]

/-- Stores in which there is only the question. -/
def questionStores : Stores Remote.Archive Memory :=
  { remote := (∅ : Remote.Archive).insert "c" (Tree.ofMessages [question] none), cache := {} }

/-- As long as the remote store has only the question, an answer in flight gets through a reload. -/
theorem survives_answering :
    let start : Session Remote.Archive Memory := { stores := questionStores }
    let s := (start.runTimed answeringEvents).atTime 4
    ∃ m, s.tree.get? "b" = some m ∧ m.content = "Be" ∧ ShowsAs (s.load "c").tree m := by
  intro start s
  obtain ⟨m, hm, hid, hcontent⟩ : ∃ m, s.tree.get? "b" = some m ∧ m.id = "b" ∧ m.content = "Be" := by
    have hany : (s.tree.get? "b").any (fun m => m.id = "b" ∧ m.content = "Be") = true := by decide +kernel
    simpa using Option.any_eq_true _ _ |>.mp hany
  have htree : (s.stores.refresh "c").1.toOption.map Prod.fst = some (Tree.ofMessages [question] none) := by
    decide +kernel
  cases hok : (s.stores.refresh "c").1 with
  | error e =>
    rw [hok] at htree
    cases htree
  | ok outcome =>
    obtain ⟨tree, report⟩ := outcome
    rw [hok] at htree
    obtain rfl : tree = Tree.ofMessages [question] none := Option.some.inj htree
    have hfree : ¬ Relation.TransGen (ParentInEither s.tree (Tree.ofMessages [question] none)) "b" "b" := by
      have hanswer : parentIn s.tree.messages "b" = some "a" ∧
          parentIn (Tree.ofMessages [question] none).messages "b" = none := by decide +kernel
      have hquestion : parentIn s.tree.messages "a" = none ∧
          parentIn (Tree.ofMessages [question] none).messages "a" = none := by decide +kernel
      intro hchain
      obtain ⟨x, hx, hrest⟩ := Relation.TransGen.head'_iff.mp hchain
      obtain rfl : "a" = x := by simpa [ParentInEither, hanswer] using hx
      obtain hab | ⟨y, hy, -⟩ := hrest.cases_head
      · exact absurd hab (by decide)
      · simp [ParentInEither, hquestion] at hy
    have hsync : ¬ HasDone (Tree.ofMessages [question] none) m.id := by
      rw [hasDone_iff_any, hid]
      decide +kernel
    rw [← hid] at hm hfree
    refine ⟨m, hid ▸ hm, hcontent, ?_⟩
    exact (survives_iff questionStores {} answeringEvents 4 (by decide +kernel) hok hm
      (by rw [hid]; decide +kernel) hsync).2 hfree

/-- A conversation that has been rearranged elsewhere: the question stands below the answer. The first replies are
from before that, when there was only the question. -/
def rearrangedStores : Stores (Remote.Scripted Remote.Archive) Memory where
  remote := {
    inner := (∅ : Remote.Archive).insert "c"
      (Tree.ofMessages [{ question with parent := some "b" }, Message.await "model" "b" 2] none)
    outlines := [.ok (Tree.ofMessages [question] none).outline]
    bodies := [.ok [question]] }
  cache := {}

/-- Then the answer cannot be placed below the question, and what has come of it is lost with the reload. -/
theorem not_survives_rearranged :
    let start : Session (Remote.Scripted Remote.Archive) Memory := { stores := rearrangedStores }
    let s := (start.runTimed answeringEvents).atTime 4
    let synced := (s.stores.refresh "c").1.toOption.bind fun outcome => outcome.1.get? "b"
    s.conversation = some "c" ∧ s.streams.isActive "b" ∧
      (s.tree.get? "b").map (fun m => (m.content, m.done)) = some ("Be", false) ∧
      synced.map Message.done = some false ∧
      ((s.load "c").tree.get? "b").map Message.content = some "" := by
  decide +kernel

end Session

end DialogueSync.Client
