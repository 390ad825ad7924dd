import DialogueSync.Proofs.Http.Url
import DialogueSync.Remote.Http
import DialogueSync.Server.Api

/-!
# Which conversation a request is about

The client writes the id of a conversation into the path of a request as it is, and the server decodes the
segment that it finds there. Both mean the same conversation exactly if the id is one segment of a path
that is not changed on the way (`Call.reaches_iff`): it has no slash and no mark that begins a query or a
fragment, no line breaks, is no segment of dots, and has no escapes. Where nothing follows it in the path
it is not empty and does not end with a space or a control character either. Any other id makes the server
answer for another conversation, or for none (`Call.reaches_other`).
-/

namespace DialogueSync.Remote

open Http.Url
open Server (Route pathId pathSegments route?)
open Text (percentDecode? percentEncode)

/-- What a client asks a server about a conversation. -/
inductive Call where
  /-- Its outline. -/
  | outline
  /-- Some bodies. -/
  | bodies (ids : List String)
  /-- All of it. -/
  | snapshot
  /-- To save it. -/
  | save (r : SaveRequest)

namespace Call

variable {τ : Type} {a : Api τ} {call : Call} {c d id : String}

/-- The request of the client. -/
def request? (a : Api τ) (conversation : String) : Call → Option Http.Request
  | outline => a.outlineRequest? conversation
  | bodies ids => a.bodiesRequest? conversation ids
  | snapshot => a.snapshotRequest? conversation
  | save r => a.saveRequest? conversation r

/-- What the path of the request has to name for the server to answer it. -/
def route (call : Call) (id : String) : Route :=
  match call with
  | outline => .outline id
  | bodies _ => .bodies id
  | snapshot => .snapshot id
  | save _ => .conversation id

/-- What stands in the path behind the conversation. -/
def names : Call → List String
  | outline => ["topology"]
  | bodies _ => ["messages", "batch"]
  | snapshot => ["history"]
  | save _ => []

/-- The request of `call` for a conversation makes the server answer it, for the conversation `d`. -/
def Reaches (call : Call) (a : Api τ) (conversation d : String) : Prop :=
  ∃ r id, call.request? a conversation = some r ∧ route? r.path = some (call.route id) ∧
    (call.route id).allows r.method ∧ pathId id = .ok d

/-- The id is written into a path as one segment that stands for itself. -/
structure Faithful (call : Call) (conversation : String) : Prop where
  /-- It stays whole. -/
  chars : ∀ x ∈ conversation.toList, isSlash x = false ∧ isBreak x = false ∧ endsPath x = false
  /-- It is not resolved. -/
  dots : isDots conversation.toList = false
  /-- Nothing in it is decoded. -/
  decoded : percentDecode? conversation = some conversation
  /-- It can end the path if it has to. -/
  last : call.names = [] → ∃ x ∈ conversation.toList.getLast?, isMargin x = false

/-! ### Paths of the server -/

/-- A character that is no slash belongs to the first segment. -/
lemma pathSegments_cons {x : Char} (hx : x ≠ '/') {cs s : List Char} {more : List (List Char)}
    (hcs : pathSegments cs = s :: more) : pathSegments (x :: cs) = (x :: s) :: more := by
  unfold pathSegments
  split <;> simp_all

lemma pathSegments_append {cs s : List Char} {more : List (List Char)} (h : '/' ∉ cs)
    {ds : List Char} (hds : pathSegments ds = s :: more) :
    pathSegments (cs ++ ds) = (cs ++ s) :: more := by
  induction cs with
  | nil => exact hds
  | cons x cs ih =>
    rw [List.mem_cons, not_or] at h
    exact pathSegments_cons (Ne.symm h.1) (ih h.2)

/-- The server takes a path apart into the folders it was put together from. -/
lemma pathSegments_folders {names : List (List Char)} (h : ∀ name ∈ names, '/' ∉ name) :
    pathSegments (folders names) = [] :: names := by
  induction names with
  | nil => rfl
  | cons name names ih =>
    rw [List.forall_mem_cons] at h
    have happ := pathSegments_append h.1 (ih h.2)
    rw [folders_cons, pathSegments, happ, List.append_nil]

/-- The server finds its route in a path exactly if the folders of the path spell it. -/
lemma route?_eq_iff {path : String} :
    route? path = some (call.route id) ↔
      (pathSegments path.toList).map String.ofList = ["", "api", "conversations", id] ++ call.names ∧
        (call.names = [] → id ≠ "") := by
  unfold route?
  constructor
  · intro h
    split at h <;> cases call <;> simp_all [route, names]
    exact fun hid => h.1 (h.2.trans hid)
  · rintro ⟨h, hne⟩
    rw [h]
    cases call <;> simp_all [route, names]

/-- The id in a path is the text that its segment is decoded to. -/
lemma pathId_eq_ok_iff : pathId id = .ok d ↔ percentDecode? id = some d := by
  unfold pathId
  split <;> simp_all

/-! ### Requests of the client -/

/-- The folders in front of the conversation, the last one first. -/
def root : List (List Char) :=
  ["conversations".toList, "api".toList]

/-- The folders behind the conversation. -/
def tail (call : Call) : List (List Char) :=
  call.names.map String.toList

/-- The path ends with the conversation if no names follow it. -/
lemma tail_eq_nil (h : call.names = []) : call.tail = [] :=
  congrArg (List.map String.toList) h

/-- The segments behind the folder of the conversations, before they are resolved. -/
def asked (call : Call) (conversation : String) : List (List Char) :=
  segments (pathPart (conversation.toList ++ folders call.tail))

/-- The names behind the conversation are plain words. -/
lemma isAlphanum_of_mem_tail {name : List Char} (h : name ∈ call.tail) :
    ∀ x ∈ name, x.isAlphanum := by
  have hall : ∀ name ∈ ["topology", "messages", "batch", "history"],
      name.toList.all Char.isAlphanum := by decide
  obtain ⟨name, hname, rfl⟩ := List.mem_map.mp h
  refine List.all_eq_true.mp (hall name ?_)
  cases call <;> grind [names]

lemma isPlain_of_mem_tail {name : List Char} (h : name ∈ call.tail) : ∀ x ∈ name, isPlain x :=
  fun x hx => (of_isAlphanum (isAlphanum_of_mem_tail h x hx)).1

/-- The client asks for one path of the call, and by the method of its route. -/
lemma request?_eq (a : Api τ) (call : Call) (c : String) :
    ∃ method body, (∀ id, (call.route id).method = method) ∧
      call.request? a c = a.request? method (String.ofList
        ('/' :: ("api/conversations/".toList ++ (c.toList ++ folders call.tail)))) body := by
  have happend (front : String) : String.ofList (front.toList ++ (c.toList ++ folders call.tail)) =
      front ++ c ++ String.ofList (folders call.tail) := by
    rw [String.ofList_append, String.ofList_append, String.ofList_toList, String.ofList_toList,
      String.append_assoc]
  have hroot : '/' :: "api/conversations/".toList = "/api/conversations/".toList := by simp
  have hpath : String.ofList
      ('/' :: ("api/conversations/".toList ++ (c.toList ++ folders call.tail))) =
        Api.conversationPath c ++ String.ofList (folders call.tail) := by
    rw [← List.cons_append, hroot]
    exact happend "/api/conversations/"
  rw [hpath]
  cases call with
  | outline => exact ⟨"GET", none, fun _ => rfl, rfl⟩
  | bodies ids => exact ⟨"POST", some (encode (BodiesQuery.mk ids)), fun _ => rfl, rfl⟩
  | snapshot => exact ⟨"GET", none, fun _ => rfl, rfl⟩
  | save r =>
    refine ⟨"PUT", some (encode r), fun _ => rfl, ?_⟩
    change a.saveRequest? c r = a.request? "PUT" (Api.conversationPath c ++ "") (some (encode r))
    rw [String.append_empty]
    rfl

/-- No route is asked for by `HEAD`. -/
lemma method_ne_head (route : Route) : route.method ≠ "HEAD" := by
  cases route <;> simp [Route.method]

lemma allows_method {route : Route} {method : String} (h : route.method = method) :
    route.allows method := by
  simp [Route.allows, h]

/-- The server hands the request of a call that reaches a conversation to what answers its route. -/
lemma Reaches.handle (h : call.Reaches a c d) :
    ∃ r id, call.request? a c = some r ∧ pathId id = .ok d ∧
      ∀ db now, Server.handle db r now = Server.answerRoute db (call.route id) r now := by
  obtain ⟨r, id, hr, hroute, hallows, hid⟩ := h
  obtain ⟨method, body, hmethod, heq⟩ := request?_eq a call c
  refine ⟨r, id, hr, hid, fun db now => ?_⟩
  have hhead : r.method ≠ "HEAD" := by
    obtain ⟨target, -, hr⟩ := Option.bind_eq_some_iff.mp (heq.symm.trans hr)
    rw [← Option.some_inj.mp hr, ← hmethod id]
    exact method_ne_head _
  rw [Server.handle, hroute]
  simp [hallows, hhead]

/-- The folders in front of the conversations are passed as they are. -/
lemma resolve_root (cs : List Char) :
    resolve [] (segments ("api/conversations/".toList ++ cs)) = resolve root (segments cs) := by
  have hsegments : segments ("api/conversations/".toList ++ cs) =
      "api".toList :: "conversations".toList :: segments cs := by
    have hroot : "api/conversations/".toList ++ cs =
        "api".toList ++ '/' :: ("conversations".toList ++ '/' :: cs) := by simp
    rw [hroot, segments_append_slash, segments_append_slash]
    rfl
  have hword : ∀ x ∈ "api".toList ++ "conversations".toList, encodedInPath x = false := fun x hx =>
    Bool.eq_false_iff.mpr (List.any_eq_false.mp (by decide) x hx)
  rw [hsegments, resolve_cons (by decide), resolve_cons (by decide),
    Text.percentEncode_eq_self fun x hx => hword x (List.mem_append_left _ hx),
    Text.percentEncode_eq_self fun x hx => hword x (List.mem_append_right _ hx)]
  rfl

/-- The path of a request in which a conversation is asked for. -/
lemma exists_request? (h : IsSite a.base) (call : Call) (c : String) :
    ∃ r, call.request? a c = some r ∧ (∀ id, (call.route id).method = r.method) ∧
      pathSegments r.path.toList = [] :: resolve root (call.asked c) := by
  obtain ⟨method, body, hmethod, heq⟩ := request?_eq a call c
  obtain ⟨target, htarget, hpath⟩ := path_of_target? h
    ("api/conversations/".toList ++ (c.toList ++ folders call.tail))
  have hsegs : resolve [] (segments (pathPart
      ("api/conversations/".toList ++ (c.toList ++ folders call.tail)))) =
        resolve root (call.asked c) := by
    have hmargin : ∀ x ∈ "api/conversations/".toList, isMargin x = false := fun x hx =>
      Bool.eq_false_iff.mpr (List.any_eq_false.mp (by decide) x hx)
    have hends : ∀ x ∈ "api/conversations/".toList, endsPath x = false := fun x hx =>
      Bool.eq_false_iff.mpr (List.any_eq_false.mp (by decide) x hx)
    rw [pathPart, rdropWhile_append hmargin,
      append_visible fun x hx => ⟨isBreak_eq_false (hmargin x hx), hends x hx⟩]
    exact resolve_root _
  refine ⟨_, by rw [heq, Api.request?, htarget]; rfl, hmethod, ?_⟩
  rw [hpath _ rfl, String.toList_ofList, pathSegments_folders fun e he hmem =>
    (mem_resolve_segments he hmem).1 rfl, hsegs]

/-- The server answers `call` for `d` exactly if the segment behind the folder of the conversations is
decoded to `d` and the others are those of `call`. -/
lemma reaches_iff_exists (h : IsSite a.base) :
    call.Reaches a c d ↔
      ∃ id, resolve root (call.asked c) = root.reverse ++ id :: call.tail ∧
        (call.names = [] → id ≠ []) ∧ percentDecode? (String.ofList id) = some d := by
  obtain ⟨r, hr, hmethod, hpath⟩ := exists_request? h call c
  have hroute (id : List Char) : route? r.path = some (call.route (String.ofList id)) ↔
      resolve root (call.asked c) = root.reverse ++ id :: call.tail ∧
        (call.names = [] → id ≠ []) := by
    have hnames : ["", "api", "conversations", String.ofList id] ++ call.names =
        ([] :: (root.reverse ++ id :: call.tail)).map String.ofList := by
      simp [root, tail, Function.comp_def]
    have hinj : Function.Injective String.ofList := fun _ _ => String.ofList_inj.mp
    rw [route?_eq_iff, hpath, hnames, (List.map_injective_iff.mpr hinj).eq_iff, List.cons_inj_right,
      ne_eq, String.ofList_eq_empty_iff]
  constructor
  · rintro ⟨r', id, hr', hpath', -, hid⟩
    obtain rfl : r = r' := Option.some_inj.mp (hr.symm.trans hr')
    rw [← String.ofList_toList (s := id)] at hpath' hid
    obtain ⟨hsegs, hne⟩ := (hroute _).mp hpath'
    exact ⟨id.toList, hsegs, hne, pathId_eq_ok_iff.mp hid⟩
  · rintro ⟨id, hsegs, hne, hid⟩
    exact ⟨r, String.ofList id, hr, (hroute id).mpr ⟨hsegs, hne⟩, allows_method (hmethod _),
      pathId_eq_ok_iff.mpr hid⟩

/-- A conversation reaches one conversation at most. -/
lemma Reaches.eq (h : IsSite a.base) {e : String} (hd : call.Reaches a c d)
    (he : call.Reaches a c e) : d = e := by
  obtain ⟨id, hsegs, -, hid⟩ := (reaches_iff_exists h).mp hd
  obtain ⟨id', hsegs', -, hid'⟩ := (reaches_iff_exists h).mp he
  obtain rfl : id = id' := by simpa using hsegs.symm.trans hsegs'
  exact Option.some_inj.mp (hid.symm.trans hid')

/-! ### Ids that stand for themselves -/

/-- Letters and digits are written into a path as they are. -/
lemma Faithful.of_alphanum (h : ∀ x ∈ c.toList, x.isAlphanum) (hnames : call.names ≠ []) :
    call.Faithful c where
  chars x hx := by
    have hplain := (isPlain_iff x).mp (of_isAlphanum (h x hx)).1
    exact ⟨hplain.2.1, isBreak_eq_false hplain.1, hplain.2.2⟩
  dots := isDots_eq_false h
  decoded := Text.percentDecode?_eq_self fun hmem =>
    (of_isAlphanum (h _ hmem)).2.1 rfl
  last hnil := absurd hnil hnames

/-- Only the empty segment is decoded to the empty id. -/
lemma percentDecode?_empty (h : percentDecode? (String.ofList []) = some c) : c = "" :=
  Option.some_inj.mp (h.symm.trans (Text.percentDecode?_eq_self List.not_mem_nil))

/-- The path of a request has such an id as one of its segments. -/
lemma Faithful.asked_eq (hc : call.Faithful c) : call.asked c = c.toList :: call.tail := by
  have hbefore : beforeFolders call.tail c.toList = c.toList := by
    unfold beforeFolders
    split
    next hnil =>
      have hnames : call.names = [] := by simpa [tail] using hnil
      obtain ⟨x, hx, hmargin⟩ := hc.last hnames
      rw [List.rdropWhile_eq_self_iff]
      intro hne
      rw [List.getLast?_eq_some_getLast hne, Option.mem_some_iff] at hx
      rw [hx, hmargin]
      exact Bool.false_ne_true
    next => rfl
  have hvisible : ∀ x ∈ c.toList ++ folders call.tail, isBreak x = false ∧ endsPath x = false := by
    intro x hx
    obtain hx | hx := List.mem_append.mp hx
    · exact (hc.chars x hx).2
    · have hfolders := mem_folders (fun name => isPlain_of_mem_tail) hx
      exact ⟨isBreak_eq_false hfolders.1, hfolders.2⟩
  have hslash : ∀ name ∈ call.tail, ∀ x ∈ name, isSlash x = false := fun name hname x hx =>
    ((isPlain_iff x).mp (isPlain_of_mem_tail hname x hx)).2.1
  rw [asked, pathPart_append_folders (fun name => isPlain_of_mem_tail), hbefore,
    visible_eq_self hvisible, segments_folders _ hslash,
    segments_eq_singleton fun x hx => (hc.chars x hx).1, List.singleton_append]

/-- An id that stands for itself reaches its own conversation. -/
lemma Faithful.reaches (hc : call.Faithful c) (h : IsSite a.base) : call.Reaches a c c := by
  have hdecode : percentDecode? (String.ofList (percentEncode encodedInPath c.toList)) = some c := by
    rw [percentDecode?_encodedInPath, String.ofList_toList, hc.decoded]
  refine (reaches_iff_exists h).mpr ⟨_, ?_, fun hnames hnil => ?_, hdecode⟩
  · have hdots : ∀ s ∈ call.asked c, isDots s = false := by
      rw [hc.asked_eq, List.forall_mem_cons]
      exact ⟨hc.dots, fun name hname => isDots_eq_false (isAlphanum_of_mem_tail hname)⟩
    have htail : call.tail.map (percentEncode encodedInPath) = call.tail := by
      refine (List.map_congr_left fun name hname => ?_).trans (List.map_id _)
      exact Text.percentEncode_eq_self fun x hx =>
        (of_isAlphanum (isAlphanum_of_mem_tail hname x hx)).2.2.2
    rw [resolve_eq_map hdots, hc.asked_eq, List.map_cons, htail]
  · obtain ⟨x, hx, -⟩ := hc.last hnames
    rw [hnil] at hdecode
    obtain rfl := percentDecode?_empty hdecode
    exact nomatch hx

/-- An id that is a whole segment of the path it is written into stands for itself. -/
lemma Faithful.of_mem_segments
    (hmem : c.toList ∈ segments (visible (beforeFolders call.tail c.toList)))
    (hdots : isDots c.toList = false) (hdecoded : percentDecode? c = some c)
    (hne : call.names = [] → c.toList ≠ []) : call.Faithful c := by
  have hpart := (mem_segments hmem).1
  refine ⟨fun x hx => ?_, hdots, hdecoded, fun hnames => ?_⟩
  · exact ⟨(mem_segments hmem).2 x hx, mem_visible (hpart.subset hx)⟩
  · have hkept := (beforeFolders_sublist call.tail c.toList).antisymm
      (hpart.trans (visible_sublist _))
    rw [tail_eq_nil hnames, beforeFolders_nil, List.rdropWhile_eq_self_iff] at hkept
    exact ⟨_, List.getLast?_eq_some_getLast (hne hnames),
      Bool.eq_false_iff.mpr (hkept (hne hnames))⟩

/-- Only an id that stands for itself reaches its own conversation. -/
lemma Reaches.faithful (hc : call.Reaches a c c) (h : IsSite a.base) : call.Faithful c := by
  obtain ⟨id, hsegs, hne, hid⟩ := (reaches_iff_exists h).mp hc
  have hleft : id ∈ (resolve root (call.asked c)).drop root.length := by
    rw [hsegs]
    exact List.mem_cons_self
  obtain rfl | ⟨s, hs, hdots, rfl⟩ := mem_drop_resolve hleft
  · obtain rfl := percentDecode?_empty hid
    exact .of_alphanum (fun x hx => absurd hx List.not_mem_nil) fun hnames => hne hnames rfl
  rw [percentDecode?_encodedInPath] at hid
  obtain hfront | hfolder := mem_segments_pathPart (fun name => isPlain_of_mem_tail) hs
  · -- The segment is a part of the id, and as it is decoded to the id it is not shorter.
    have hpart := (mem_segments hfront).1.trans
      ((visible_sublist _).trans (beforeFolders_sublist call.tail c.toList))
    have hlen := Text.length_utf8_of_percentDecode? hid
    rw [String.toList_ofList] at hlen
    obtain rfl : s = c.toList := Text.eq_of_sublist_of_length_utf8_le hpart hlen
    rw [String.ofList_toList] at hid
    refine .of_mem_segments hfront hdots hid fun hnames hnil => hne hnames ?_
    rw [hnil]
    rfl
  · -- The segment is one of the folders behind the id, which stand for themselves.
    have halnum := isAlphanum_of_mem_tail hfolder
    have hself : percentDecode? (String.ofList s) = some (String.ofList s) := by
      refine Text.percentDecode?_eq_self ?_
      rw [String.toList_ofList]
      exact fun hmem => (of_isAlphanum (halnum _ hmem)).2.1 rfl
    obtain rfl := Option.some_inj.mp (hself.symm.trans hid)
    refine .of_alphanum (by rwa [String.toList_ofList]) fun hnames => ?_
    rw [tail_eq_nil hnames] at hfolder
    exact absurd hfolder List.not_mem_nil

/-- The client and the server mean the same conversation exactly if its id stands for itself in the path.
No two such ids reach one conversation. -/
theorem reaches_iff (h : IsSite a.base) (call : Call) (c : String) :
    (call.Reaches a c c ↔ call.Faithful c) ∧
      ∀ d e, call.Faithful c → call.Faithful d → call.Reaches a c e → call.Reaches a d e → c = d :=
  ⟨⟨fun hc => hc.faithful h, fun hc => hc.reaches h⟩, fun _ _ hc hd hce hde =>
    ((hc.reaches h).eq h hce).trans (((hd.reaches h).eq h hde).symm)⟩

/-- The client of a server on this machine. -/
def localApi : Api Http.Offline :=
  .connect "http://localhost:8080" {}

/-- The space and the accent are encoded by the client and decoded by the server. -/
theorem reaches_encoded : IsSite localApi.base ∧ snapshot.Reaches localApi "café 1" "café 1" := by
  have hsite : IsSite localApi.base :=
    ⟨"http://", List.mem_cons_self, "localhost:8080".toList, by decide,
      List.all_eq_true.mp (by decide), by decide⟩
  have hchars : "café 1".toList.all fun x => !isSlash x && !isBreak x && !endsPath x := by decide
  have hfaithful : snapshot.Faithful "café 1" :=
    ⟨by simpa [and_assoc] using hchars, by decide, by decide +kernel, nofun⟩
  exact ⟨hsite, (reaches_iff hsite snapshot "café 1").1.mpr hfaithful⟩

/-- An escape in an id is decoded, so two ids reach one conversation; an id with a slash reaches none. -/
theorem reaches_other :
    outline.Reaches localApi "a%62" "ab" ∧ outline.Reaches localApi "ab" "ab" ∧
      ∀ d, ¬outline.Reaches localApi "a/b" d := by
  refine ⟨⟨⟨"GET", "/api/conversations/a%62/topology", none, ""⟩, "a%62", ?_, ?_, rfl, ?_⟩,
    ⟨⟨"GET", "/api/conversations/ab/topology", none, ""⟩, "ab", ?_, ?_, rfl, ?_⟩, ?_⟩
  · decide +kernel
  · decide +kernel
  · exact pathId_eq_ok_iff.mpr (by decide +kernel)
  · decide +kernel
  · decide +kernel
  · exact pathId_eq_ok_iff.mpr (by decide +kernel)
  · rintro d ⟨r, id, hr, hroute, -⟩
    have hnone : (outline.request? localApi "a/b").map (fun r => route? r.path) = some none := by
      decide +kernel
    rw [hr, Option.map_some, hroute] at hnone
    exact nomatch hnone

end Call

end DialogueSync.Remote
