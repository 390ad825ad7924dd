import DialogueSync.Cache.Record
import DialogueSync.Codec.History
import DialogueSync.Proofs.Codec.Reordering
import DialogueSync.Proofs.Server.Rows
import DialogueSync.Stream.Basic

/-!
# Reading back what was written

Every wire form has the floating-point numbers of its value, and these are written as null if they are not
finite. If all of them are finite, then the value is read back from its form, also from the canonical one.
-/

namespace DialogueSync

open Codec (ReadsBack decodeOption_encodeOption exists_single?_eq readsBack_bool readsBack_idMap readsBack_int64
  readsBack_list readsBack_string)
open Codec.Fields (getD_of_single? optional_of_single? required_of_single? single?_of_reordered)
open Json (Reorders onValue)

/-! ### Floating-point numbers -/

/-- A type whose values hold floating-point numbers. -/
class HasFloats (α : Type) where
  /-- The floating-point numbers of a value. -/
  floats : α → List Float

export HasFloats (floats)

/-- All floating-point numbers of the value are finite. -/
def AllFinite {α : Type} [HasFloats α] (x : α) : Prop :=
  ∀ y ∈ floats x, y.isFinite = true

instance : HasFloats Usage where
  floats u := u.tokensPerSecond.toList ++ u.estimatedCost.toList

instance : HasFloats Message where
  floats m := m.usage.toList.flatMap floats

instance : HasFloats History where
  floats h := h.messages.values.flatMap floats

instance : HasFloats Outline where
  floats _ := []

instance : HasFloats Snapshot where
  floats s := s.bodies.flatMap floats

instance : HasFloats Cache.Record where
  floats r := floats r.message

/-- Free settings hold their numbers in written form. -/
instance : HasFloats SaveRequest where
  floats r := floats r.history

instance : HasFloats Delta where
  floats d := d.usage.toList.flatMap floats

/-- What consists of parts has finite numbers exactly if they have. -/
lemma allFinite_flatMap {α β : Type} [HasFloats β] {xs : List β} {x : α} [HasFloats α]
    (h : floats x = xs.flatMap floats) : AllFinite x ↔ ∀ y ∈ xs, AllFinite y := by
  unfold AllFinite
  rw [h]
  constructor
  · intro hall y hy z hz
    exact hall z (List.mem_flatMap.mpr ⟨y, hy, hz⟩)
  · intro hall z hz
    obtain ⟨y, hy, hz⟩ := List.mem_flatMap.mp hz
    exact hall y hy z hz

variable {φ : Json → Json}

/-! ### Usages and messages -/

namespace Usage

/-- The names of the fields of a usage. -/
def fieldNames : List String :=
  ["promptTokens", "completionTokens", "totalTokens", "tokensPerSecond", "timeToFirstTokenMs", "elapsedMs",
    "estimatedCost"]

/-- The fields of a usage are some of those that it can have, in their order. -/
lemma map_fst_fields_sublist (u : Usage) : (u.fields.map Prod.fst).Sublist fieldNames := by
  have hpresent : ∀ {α : Type} [Codec α] (name : String) (x : Option α),
      ((Codec.present name x).map Prod.fst).Sublist [name] := by
    intro α _ name x
    cases x with
    | none => exact List.nil_sublist _
    | some y => exact List.Sublist.refl _
  simp only [fields, List.map_append]
  exact (((((((hpresent _ _).append (hpresent _ _)).append (hpresent _ _)).append (hpresent _ _)).append
    (hpresent _ _)).append (hpresent _ _)).append (hpresent _ _))

lemma nodup_fields (u : Usage) : (u.fields.map Prod.fst).Nodup :=
  (map_fst_fields_sublist u).nodup (by decide)

/-- The fields of a usage are numbers or null, which no rewriting changes. -/
lemma map_onValue_fields (hφ : Reorders φ) (u : Usage) : u.fields.map (onValue φ) = u.fields := by
  have hpresent : ∀ {α : Type} [Codec α] (name : String) (x : Option α),
      (∀ y : α, φ (encode y) = encode y) → (Codec.present name x).map (onValue φ) = Codec.present name x := by
    intro α _ name x hx
    cases x with
    | none => rfl
    | some y => exact congrArg (fun j => [(name, j)]) (hx y)
  have hfloat : ∀ x : Float, φ (encode x) = encode x := by
    intro x
    change φ (.ofFloat x) = .ofFloat x
    unfold Json.ofFloat
    split
    · exact hφ.float x
    · exact hφ.null
  simp only [fields, List.map_append, hpresent _ _ (fun n : UInt64 => hφ.int n.toNat),
    hpresent _ _ (fun n : Int64 => hφ.int n.toInt), hpresent _ _ hfloat]

/-- All figures have a written form if they are finite. -/
lemma written_eq_self {u : Usage} (h : AllFinite u) : u.written = u := by
  have hfinite : ∀ x : Option Float, (∀ y ∈ x.toList, y.isFinite = true) → x.bind Codec.finite? = x := by
    intro x hx
    cases x with
    | none => rfl
    | some y => exact if_pos (hx y (by simp))
  rw [written, hfinite _ fun y hy => h y (List.mem_append_left _ hy),
    hfinite _ fun y hy => h y (List.mem_append_right _ hy)]

/-- A usage is read by the names of the fields alone. -/
lemma decode_of_perm {fields fields' : Codec.Fields} (h : fields.Perm fields') :
    (decode (.obj fields) : Option Usage) = decode (.obj fields') := by
  simp only [decode, Codec.fields?, Option.bind_eq_bind, Option.bind_some, Codec.Fields.optional,
    Codec.Fields.single?_of_perm h]

/-- A usage with finite numbers is read back. -/
lemma readsBack (hφ : Reorders φ) {u : Usage} (h : AllFinite u) : ReadsBack φ u := by
  obtain ⟨fields', heq, hperm⟩ := hφ.obj u.fields (nodup_fields u)
  rw [map_onValue_fields hφ] at hperm
  rw [ReadsBack, encode_eq, heq, decode_of_perm hperm, ← encode_eq, decode_encode, written_eq_self h]

end Usage

namespace Message

/-- The names of the fields of a message. -/
def fieldNames : List String :=
  ["id", "parentId", "childrenIds", "role", "content", "modelId", "position", "createdAt", "updatedAt", "usage",
    "done", "error"]

/-- A message is read by the names of the fields alone. -/
lemma decodeFields_of_perm {fields fields' : Codec.Fields} (h : fields.Perm fields') :
    decodeFields fields = decodeFields fields' := by
  simp only [decodeFields, Codec.Fields.required, Codec.Fields.getD, Codec.Fields.optional,
    Codec.Fields.single?_of_perm h]

/-- A role is read back. -/
lemma readsBack_role (hφ : Reorders φ) (r : Role) : ReadsBack φ r := by
  refine (congrArg decode (hφ.str r.name)).trans ?_
  cases r <;> decide

/-- The fields of a message are read back. -/
lemma decodeFields_map_onValue (hφ : Reorders φ) {m : Message} (h : AllFinite m) :
    decodeFields (m.encodeFields.map (onValue φ)) = some m := by
  have hget : ∀ name j, (name, j) ∈ m.encodeFields →
      Codec.Fields.single? (m.encodeFields.map (onValue φ)) name = some (some (φ j)) := fun name j hj =>
    single?_of_reordered (show (m.encodeFields.map Prod.fst).Nodup from (by decide : fieldNames.Nodup))
      (List.Perm.refl _) hj
  have hstring := readsBack_string hφ
  have hint64 := readsBack_int64 hφ
  have husage : ∀ u, m.usage = some u → ReadsBack φ u := fun u hu =>
    Usage.readsBack hφ ((allFinite_flatMap rfl).mp h u (by simp [hu]))
  have hid := required_of_single? (hget "id" _ (by simp [encodeFields])) (hstring m.id)
  have hparent := optional_of_single? (hget "parentId" _ (by simp [encodeFields]))
    (decodeOption_encodeOption hφ rfl m.parent fun s _ => hstring s)
  have hchildren := getD_of_single? [] (hget "childrenIds" _ (by simp [encodeFields]))
    (readsBack_list hφ m.children fun s _ => hstring s)
  have hrole := required_of_single? (hget "role" _ (by simp [encodeFields])) (readsBack_role hφ m.role)
  have hcontent := getD_of_single? "" (hget "content" _ (by simp [encodeFields])) (hstring m.content)
  have hmodel := optional_of_single? (hget "modelId" _ (by simp [encodeFields]))
    (decodeOption_encodeOption hφ rfl m.model fun s _ => hstring s)
  have hposition := optional_of_single? (hget "position" _ (by simp [encodeFields]))
    (decodeOption_encodeOption hφ rfl m.position fun n _ => hint64 n)
  have hcreatedAt := required_of_single? (hget "createdAt" _ (by simp [encodeFields])) (hint64 m.createdAt)
  have hupdatedAt := optional_of_single? (hget "updatedAt" _ (by simp [encodeFields]))
    (decodeOption_encodeOption hφ rfl m.updatedAt fun n _ => hint64 n)
  have husage := optional_of_single? (hget "usage" _ (by simp [encodeFields]))
    (decodeOption_encodeOption hφ rfl m.usage husage)
  have hdone := getD_of_single? true (hget "done" _ (by simp [encodeFields])) (readsBack_bool hφ m.done)
  have herror := optional_of_single? (hget "error" _ (by simp [encodeFields]))
    (decodeOption_encodeOption hφ rfl m.error fun s _ => hstring s)
  simp only [decodeFields, hid, hparent, hchildren, hrole, hcontent, hmodel, hposition, hcreatedAt,
    hupdatedAt, husage, hdone, herror, Option.bind_eq_bind, Option.bind_some]
  rfl

/-- A message with finite numbers is read back. -/
lemma readsBack (hφ : Reorders φ) {m : Message} (h : AllFinite m) : ReadsBack φ m := by
  obtain ⟨fields', heq, hperm⟩ := hφ.obj m.encodeFields (show fieldNames.Nodup by decide)
  change (Codec.fields? (φ (.obj m.encodeFields))).bind decodeFields = _
  rw [heq, Codec.fields?, Option.bind_some, decodeFields_of_perm hperm, decodeFields_map_onValue hφ h]

end Message

/-- The fields of a message are found among those of a record. -/
lemma Cache.Record.readsBack (hφ : Reorders φ) {r : Cache.Record} (h : AllFinite r) : ReadsBack φ r := by
  obtain ⟨fields', heq, hperm, hget⟩ := exists_single?_eq hφ (("conversationId", encode r.conversation) ::
    r.message.encodeFields ++ [("fingerprint", encode r.fingerprint), ("cachedAt", encode r.cachedAt)])
    (show ("conversationId" :: Message.fieldNames ++ ["fingerprint", "cachedAt"]).Nodup by decide)
  have hconversation := required_of_single? (hget "conversationId" _ (by simp)) (readsBack_string hφ r.conversation)
  have hfingerprint := required_of_single? (hget "fingerprint" _ (by simp)) (readsBack_string hφ r.fingerprint)
  have hcachedAt := required_of_single? (hget "cachedAt" _ (by simp)) (readsBack_int64 hφ r.cachedAt)
  have hown : (fields'.filter fun f => !Cache.ownFields.contains f.1).Perm
      (r.message.encodeFields.map (onValue φ)) := by
    refine (hperm.filter _).trans (List.Perm.of_eq ?_)
    rfl
  have hmessage : Message.decodeFields (fields'.filter fun f => !Cache.ownFields.contains f.1) =
      some r.message := by
    rw [Message.decodeFields_of_perm hown, Message.decodeFields_map_onValue hφ h]
  change decode (φ (.obj _)) = _
  rw [heq]
  simp only [decode, Codec.fields?, hconversation, hmessage, hfingerprint, hcachedAt, Option.bind_eq_bind,
    Option.bind_some]
  rfl

/-! ### Conversations -/

/-- So are the messages of a history. -/
lemma History.readsBack_messages (hφ : Reorders φ) {h : History} (hfinite : AllFinite h) :
    ReadsBack φ h.messages :=
  readsBack_idMap hφ h.messages fun id m hm =>
    Message.readsBack hφ ((allFinite_flatMap rfl).mp hfinite m (mem_values_iff.mpr ⟨id, hm⟩))

lemma History.decodeOption_current (hφ : Reorders φ) (h : History) :
    Codec.decodeOption (φ (Codec.encodeOption h.current)) = some h.current :=
  decodeOption_encodeOption hφ rfl h.current fun s _ => readsBack_string hφ s

lemma History.readsBack (hφ : Reorders φ) {h : History} (hfinite : AllFinite h) : ReadsBack φ h := by
  obtain ⟨fields', heq, -, hget⟩ := exists_single?_eq hφ
    [("messages", encode h.messages), ("currentId", Codec.encodeOption h.current)]
    (show ["messages", "currentId"].Nodup by decide)
  have hmessages := getD_of_single? ∅ (hget "messages" _ (by simp)) (readsBack_messages hφ hfinite)
  have hcurrent := optional_of_single? (hget "currentId" _ (by simp)) (decodeOption_current hφ h)
  change decode (φ (.obj _)) = _
  rw [heq]
  simp only [decode, Codec.fields?, hmessages, hcurrent, Option.bind_eq_bind, Option.bind_some]
  rfl

/-- A node is read back, whatever is in it. -/
lemma Node.readsBack (hφ : Reorders φ) (n : Node) : ReadsBack φ n := by
  obtain ⟨fields', heq, -, hget⟩ := exists_single?_eq hφ
    [("parentId", Codec.encodeOption n.parent), ("childrenIds", encode n.children),
      ("fingerprint", encode n.fingerprint), ("position", Codec.encodeOption n.position),
      ("createdAt", encode n.createdAt)]
    (show ["parentId", "childrenIds", "fingerprint", "position", "createdAt"].Nodup by decide)
  have hparent := optional_of_single? (hget "parentId" _ (by simp))
    (decodeOption_encodeOption hφ rfl n.parent fun s _ => readsBack_string hφ s)
  have hchildren := getD_of_single? [] (hget "childrenIds" _ (by simp))
    (readsBack_list hφ n.children fun s _ => readsBack_string hφ s)
  have hfingerprint := required_of_single? (hget "fingerprint" _ (by simp)) (readsBack_string hφ n.fingerprint)
  have hposition := optional_of_single? (hget "position" _ (by simp))
    (decodeOption_encodeOption hφ rfl n.position fun k _ => readsBack_int64 hφ k)
  have hcreatedAt := required_of_single? (hget "createdAt" _ (by simp)) (readsBack_int64 hφ n.createdAt)
  change decode (φ (.obj _)) = _
  rw [heq]
  simp only [decode, Codec.fields?, hparent, hchildren, hfingerprint, hposition, hcreatedAt,
    Option.bind_eq_bind, Option.bind_some]
  rfl

lemma Outline.readsBack (hφ : Reorders φ) (o : Outline) : ReadsBack φ o := by
  obtain ⟨fields', heq, -, hget⟩ := exists_single?_eq hφ
    [("messages", encode o.nodes), ("currentId", Codec.encodeOption o.current)]
    (show ["messages", "currentId"].Nodup by decide)
  have hnodes := required_of_single? (hget "messages" _ (by simp))
    (readsBack_idMap hφ o.nodes fun _ n _ => Node.readsBack hφ n)
  have hcurrent := optional_of_single? (hget "currentId" _ (by simp))
    (decodeOption_encodeOption hφ rfl o.current fun s _ => readsBack_string hφ s)
  change decode (φ (.obj _)) = _
  rw [heq]
  simp only [decode, Codec.fields?, hnodes, hcurrent, Option.bind_eq_bind, Option.bind_some]
  rfl

/-- A snapshot with finite numbers is read back. -/
lemma Snapshot.readsBack (hφ : Reorders φ) {s : Snapshot} (h : AllFinite s) : ReadsBack φ s := by
  obtain ⟨fields', heq, -, hget⟩ := exists_single?_eq hφ
    [("topology", encode s.outline), ("bodies", encode s.bodies)] (show ["topology", "bodies"].Nodup by decide)
  have houtline := required_of_single? (hget "topology" _ (by simp)) (Outline.readsBack hφ s.outline)
  have hbodies := required_of_single? (hget "bodies" _ (by simp))
    (readsBack_list hφ s.bodies fun m hm => Message.readsBack hφ ((allFinite_flatMap rfl).mp h m hm))
  change decode (φ (.obj _)) = _
  rw [heq]
  simp only [decode, Codec.fields?, houtline, hbodies, Option.bind_eq_bind, Option.bind_some]
  rfl

/-- The free settings of a request come back rewritten, and everything else as it was. -/
lemma SaveRequest.decode_encode (hφ : Reorders φ) {r : SaveRequest} (h : AllFinite r) :
    decode (φ (encode r)) = some { r with params := φ r.params, files := r.files.map φ } := by
  obtain ⟨fields', heq, -, hget⟩ := exists_single?_eq hφ
    [("models", encode r.models), ("params", encode r.params), ("history", encode r.history),
      ("files", encode r.files)]
    (show ["models", "params", "history", "files"].Nodup by decide)
  have hmodels := getD_of_single? [] (hget "models" _ (by simp))
    (readsBack_list hφ r.models fun s _ => readsBack_string hφ s)
  have hparams : Codec.Fields.getD fields' "params" Json.null = some (φ r.params) :=
    getD_of_single? Json.null (hget "params" (encode r.params) (by simp)) rfl
  have hhistory := required_of_single? (hget "history" _ (by simp)) (History.readsBack hφ h)
  have hfiles : Codec.Fields.getD fields' "files" [] = some (r.files.map φ) := by
    refine getD_of_single? [] (hget "files" (encode r.files) (by simp)) ?_
    change decode (φ (.arr (r.files.map fun j => j))) = _
    rw [List.map_id', hφ.arr]
    exact Codec.decodeAll_json (r.files.map φ)
  change decode (φ (.obj _)) = _
  rw [heq]
  simp only [decode, Codec.fields?, hmodels, hparams, hhistory, hfiles, Option.bind_eq_bind, Option.bind_some]
  rfl

/-! ### Increments -/

lemma Delta.readsBack (hφ : Reorders φ) {d : Delta} (h : AllFinite d) : ReadsBack φ d := by
  obtain ⟨fields', heq, -, hget⟩ := exists_single?_eq hφ
    [("content", Codec.encodeOption d.content), ("usage", Codec.encodeOption d.usage),
      ("error", Codec.encodeOption d.error), ("done", encode d.done)]
    (show ["content", "usage", "error", "done"].Nodup by decide)
  have hcontent := optional_of_single? (hget "content" _ (by simp))
    (decodeOption_encodeOption hφ rfl d.content fun s _ => readsBack_string hφ s)
  have husage := optional_of_single? (hget "usage" _ (by simp)) (decodeOption_encodeOption hφ rfl d.usage
    fun u hu => Usage.readsBack hφ ((allFinite_flatMap rfl).mp h u (by simp [hu])))
  have herror := optional_of_single? (hget "error" _ (by simp))
    (decodeOption_encodeOption hφ rfl d.error fun s _ => readsBack_string hφ s)
  have hdone := getD_of_single? false (hget "done" _ (by simp)) (readsBack_bool hφ d.done)
  change decode (φ (.obj _)) = _
  rw [heq]
  simp only [decode, Codec.fields?, hcontent, husage, herror, hdone, Option.bind_eq_bind, Option.bind_some]
  rfl

end DialogueSync
