import DialogueSync.Proofs.Codec.Texts
import DialogueSync.Remote.Http

/-!
# Whole conversations from a server

A whole conversation comes as a snapshot or as a plain history, and the JSON value says which: a snapshot has an
outline, and a plain history has no fields but the messages and the selected one
(`not_describesHistory_of_decode`). So a response with the form of a snapshot gives that snapshot, one with the form
of a history gives the snapshot of its tree, and whatever is neither is refused, with its status if that is not
one of success (`snapshot_of_reply`).
-/

namespace DialogueSync.Remote

open Codec (decodeOption)
open Http (Transport)

/-! ### The two forms -/

/-- The JSON value is an object with the messages of the history, its selected message unless that is missing, and
nothing else. -/
def DescribesHistory (j : Json) (h : History) : Prop :=
  ∃ fields, j = .obj fields ∧ (∀ f ∈ fields, f.1 = "messages" ∨ f.1 = "currentId") ∧
    (∃ messages, ("messages", messages) ∈ fields ∧ decode messages = some h.messages) ∧
    ((∀ f ∈ fields, f.1 ≠ "currentId") ∧ h.current = none ∨
      ∃ current, ("currentId", current) ∈ fields ∧ decodeOption current = some h.current)

/-- The JSON value stands for the snapshot: it is its form, or it describes a history whose tree has it. -/
def Describes (j : Json) (s : Snapshot) : Prop :=
  decode j = some s ∨ ∃ h, DescribesHistory j h ∧ (Tree.ofHistory h).snapshot = s

variable {j : Json} {h : History} {s : Snapshot}

/-- A value whose fields have different names is read as a plain history exactly if it describes it. -/
lemma decodeInline_eq_some_iff (hj : ∀ fields, j = .obj fields → Json.Ordered fields) :
    decodeInline j = some h ↔ DescribesHistory j h := by
  cases j with
  | obj fields =>
    have hnodup := (hj fields rfl).nodup
    simp only [decodeInline, Codec.fields?, Option.bind_eq_bind, Option.bind_some, Option.ite_none_right_eq_some,
      Option.bind_eq_some_iff, List.all_eq_true, Bool.or_eq_true, decide_eq_true_eq]
    constructor
    · rintro ⟨hnames, messages, hmessages, current, hcurrent, hhistory⟩
      obtain rfl := Option.some.inj hhistory
      exact ⟨fields, rfl, hnames, (Codec.Fields.required_eq_some_iff hnodup).mp hmessages,
        (Codec.Fields.optional_eq_some_iff hnodup).mp hcurrent⟩
    · rintro ⟨fields', hfields, hnames, hmessages, hcurrent⟩
      obtain rfl := Json.obj.inj hfields
      exact ⟨hnames, h.messages, (Codec.Fields.required_eq_some_iff hnodup).mpr hmessages, h.current,
        (Codec.Fields.optional_eq_some_iff hnodup).mpr hcurrent, rfl⟩
  | _ =>
    constructor
    · intro hread
      cases hread
    · rintro ⟨fields, hfields, -⟩
      cases hfields

/-- What has an outline does not describe a plain history. -/
lemma not_describesHistory_of_decode (hdecode : decode j = some s) : ¬ DescribesHistory j h := by
  rintro ⟨fields, rfl, hnames, -⟩
  simp only [decode, Codec.fields?, Option.bind_eq_bind, Option.bind_some, Option.bind_eq_some_iff] at hdecode
  obtain ⟨outline, houtline, -⟩ := hdecode
  obtain ⟨_, hmem, -⟩ := Codec.Fields.exists_of_required houtline
  simpa using hnames _ hmem

/-- A response is taken for a snapshot exactly if it stands for it. -/
lemma decodeSnapshot_eq_some_iff (hj : ∀ fields, j = .obj fields → Json.Ordered fields) :
    Api.decodeSnapshot j = some s ↔ Describes j s := by
  unfold Api.decodeSnapshot
  cases hdecode : (decode j : Option Snapshot) with
  | some s' =>
    rw [Option.some_or]
    refine ⟨fun hs => Or.inl (hdecode.trans hs), ?_⟩
    rintro (hs | ⟨h, hh, -⟩)
    · exact hdecode.symm.trans hs
    · exact absurd hh (not_describesHistory_of_decode hdecode)
  | none =>
    rw [Option.none_or, Option.map_eq_some_iff]
    constructor
    · rintro ⟨h, hread, hs⟩
      exact Or.inr ⟨h, (decodeInline_eq_some_iff hj).mp hread, hs⟩
    · rintro (hs | ⟨h, hh, hs⟩)
      · cases hdecode.symm.trans hs
      · exact ⟨h, (decodeInline_eq_some_iff hj).mpr hh, hs⟩

/-- The canonical form of a snapshot stands for it. -/
lemma describes_encode (hs : AllFinite s) : Describes (encode s).canonical s :=
  Or.inl (Snapshot.readsBack Json.reorders_canonical hs)

/-- The canonical form of a history describes it. -/
lemma describesHistory_encode (hh : AllFinite h) : DescribesHistory (encode h).canonical h := by
  obtain ⟨fields', heq, hperm, -⟩ := Codec.exists_single?_eq Json.reorders_canonical
    [("messages", encode h.messages), ("currentId", Codec.encodeOption h.current)]
    (show ["messages", "currentId"].Nodup by decide)
  refine ⟨fields', heq, fun f hf => ?_, ⟨_, hperm.mem_iff.mpr List.mem_cons_self, ?_⟩,
    Or.inr ⟨_, hperm.mem_iff.mpr (List.mem_cons_of_mem _ List.mem_cons_self), ?_⟩⟩
  · simpa [Json.onValue] using (hperm.map Prod.fst).mem_iff.mp (List.mem_map_of_mem hf)
  · exact History.readsBack_messages Json.reorders_canonical hh
  · exact History.decodeOption_current Json.reorders_canonical h

/-! ### Responses -/

namespace Api

variable {τ : Type} [Transport τ] {a : Api τ} {conversation : String} {request : Http.Request} {r : Http.Response}

/-- The body is a text of the JSON value, with the fields of objects in whatever order. -/
def Carries (r : Http.Response) (j : Json) : Prop :=
  ∃ j', Json.parse? r.body = some j' ∧ j'.canonical = j.canonical

/-- What is carried is read in its canonical form. -/
lemma json_of_carries (hr : Carries r j) : json r = .ok j.canonical := by
  obtain ⟨j', hparse, hcanonical⟩ := hr
  rw [json, hparse, ← hcanonical]

/-- If a response arrives, then all that counts is what it says. -/
lemma snapshot_eq_readSnapshot (hrequest : a.snapshotRequest? conversation = some request)
    (hsend : (Transport.send request a.transport).1 = .ok r) :
    (Remote.snapshot conversation a).1 = readSnapshot r := by
  change (exchange (a.snapshotRequest? conversation) readSnapshot a).1 = _
  rw [hrequest, exchange]
  dsimp only
  rw [hsend]

/-- A response without success is a failure with its status. -/
lemma readSnapshot_of_not_isSuccess (hr : r.isSuccess = false) :
    readSnapshot r = .error (.status r.status r.body) := by
  rw [readSnapshot, check, if_neg (by rw [hr]; decide)]
  rfl

lemma readSnapshot_of_isSuccess (hr : r.isSuccess = true) :
    readSnapshot r = json r >>= fun j => shaped (decodeSnapshot j) := by
  rw [readSnapshot, check, if_pos hr]
  rfl

/-- A text that is not JSON is malformed. -/
lemma readSnapshot_of_not_carries (hr : r.isSuccess = true) (hnone : ∀ j, ¬ Carries r j) :
    readSnapshot r = .error (.malformed "response is not JSON") := by
  rw [readSnapshot_of_isSuccess hr, json]
  cases hparse : Json.parse? r.body with
  | none => rfl
  | some j => exact absurd ⟨j, hparse, rfl⟩ (hnone j)

lemma readSnapshot_of_carries (hr : r.isSuccess = true) (hj : Carries r j) :
    readSnapshot r = shaped (decodeSnapshot j.canonical) := by
  rw [readSnapshot_of_isSuccess hr, json_of_carries hj]
  rfl

lemma shaped_eq_ok_iff {α : Type} {decoded : Option α} {x : α} : shaped decoded = .ok x ↔ decoded = some x := by
  cases decoded with
  | none => simp [shaped]
  | some y => simp [shaped]

/-- A response gives what its value stands for. -/
lemma readSnapshot_eq_ok_iff (hr : r.isSuccess = true) (hj : Carries r j) :
    readSnapshot r = .ok s ↔ Describes j.canonical s := by
  rw [readSnapshot_of_carries hr hj, shaped_eq_ok_iff]
  exact decodeSnapshot_eq_some_iff fun _ => Json.ordered_of_canonical

/-- And it is malformed if this is nothing. -/
lemma malformed_of_not_describes (hr : r.isSuccess = true) (hj : Carries r j)
    (hnone : ∀ s, ¬ Describes j.canonical s) : ∃ reason, readSnapshot r = .error (.malformed reason) := by
  cases hread : decodeSnapshot j.canonical with
  | none => exact ⟨_, by rw [readSnapshot_of_carries hr hj, hread]; rfl⟩
  | some s => exact absurd ((decodeSnapshot_eq_some_iff fun _ => Json.ordered_of_canonical).mp hread) (hnone s)

/-- A response whose text is that of a JSON value carries what this is read as. -/
lemma carries_of_render {j' : Json} (hbody : r.body = j.render) (hread : Json.parse? j.render = some j') :
    Carries r j' :=
  ⟨j', by rw [hbody, hread], rfl⟩

/-- The text of a snapshot is taken for the snapshot with the numbers that its own are read as. -/
lemma readSnapshot_of_render {f : Float → Float} (hr : r.isSuccess = true) (hs : RereadsAs f s)
    (hbody : r.body = (encode s).render) : readSnapshot r = .ok (s.mapFloats f) :=
  (readSnapshot_eq_ok_iff hr (carries_of_render hbody (Snapshot.parse?_render hs))).mpr
    (describes_encode (Snapshot.allFinite_mapFloats hs))

/-- The transport over which every request has the same answer. -/
structure Canned where
  /-- The answer. -/
  response : Http.Response

instance : Transport Canned where
  send _ t := (.ok t.response, t)

lemma send_canned (request : Http.Request) (r : Http.Response) : (Transport.send request (Canned.mk r)).1 = .ok r :=
  rfl

/-- What is asked does not depend on the way to reach the server. -/
lemma snapshotRequest?_canned (r : Http.Response) :
    (connect "http://host" (Canned.mk r)).snapshotRequest? "c" =
      some ⟨"GET", "/api/conversations/c/history", none, ""⟩ :=
  show (connect "http://host" ()).snapshotRequest? "c" = _ from rfl

/-- A plain history with one message, as a server may answer it. -/
def plainReply : Http.Response where
  status := 200
  body :=
    "\x7b\"currentId\":\"a\",\"messages\":\x7b\"a\":\x7b\"createdAt\":1,\"id\":\"a\",\"role\":\"user\"\x7d\x7d\x7d"

/-- The JSON value of the answer. -/
def plainForm : Json :=
  .obj [("currentId", .str "a"),
    ("messages", .obj [("a", .obj [("createdAt", .int 1), ("id", .str "a"), ("role", .str "user")])])]

/-- The history of the answer. -/
def plainHistory : History where
  messages := IdMap.collect Message.id [⟨"a", none, [], .user, "", none, none, 1, none, none, true, none⟩]
  current := some "a"

/-- A snapshot of one message with a measured speed. -/
def meteredSnapshot (tokensPerSecond : Float) : Snapshot where
  outline := {
    nodes := (∅ : IdMap Node).insert "a" ⟨none, [], "0123456789abcdef", none, 1⟩
    current := some "a" }
  bodies := [⟨"a", none, [], .assistant, "Because.", none, none, 1, none, some { tokensPerSecond }, true, none⟩]

/-- The answer with the text of the snapshot. -/
def meteredReply (tokensPerSecond : Float) : Http.Response where
  status := 200
  body := (encode (meteredSnapshot tokensPerSecond)).render

/-- The answer has the text of the snapshot. -/
lemma body_meteredReply (x : Float) : (meteredReply x).body = (encode (meteredSnapshot x)).render :=
  rfl

lemma floats_meteredSnapshot (x : Float) : floats (meteredSnapshot x) = [x] :=
  rfl

lemma mapFloats_meteredSnapshot (f : Float → Float) (x : Float) :
    (meteredSnapshot x).mapFloats f = meteredSnapshot (f x) :=
  rfl

lemma rereadsAs_meteredSnapshot {f : Float → Float} {x : Float} (hx : x.isFinite = true)
    (hread : Json.reread? x = some (f x)) : RereadsAs f (meteredSnapshot x) := by
  intro y hy
  rw [floats_meteredSnapshot, List.mem_singleton] at hy
  exact hy ▸ ⟨hx, hread⟩

end Api

end DialogueSync.Remote
