import DialogueSync.Http.Basic
import DialogueSync.Http.Url
import DialogueSync.Proofs.Text.Percent
import Mathlib.Data.List.DropRight

/-!
# The path that is asked for

What a server sees of a path that is appended to the address of a site (`path_of_target?`): the path ends
where a query or a fragment begins, is taken apart at its slashes, and its segments are resolved. Each
segment that is left behind the given folders is empty or the percent-encoded form of one that was
written (`mem_drop_resolve`), and if no segment is a segment of dots all of them are left
(`resolve_eq_map`).
-/

namespace DialogueSync.Http.Url

open Text (percentByte percentEncode percentEncodeChar upperHexDigit)

/-- A character that stands for itself everywhere in an address. -/
def isPlain (c : Char) : Bool :=
  !isMargin c && !isSlash c && !endsPath c

/-- The path with these folders. -/
def folders (names : List (List Char)) : List Char :=
  names.flatMap ('/' :: ·)

@[simp]
lemma folders_nil : folders [] = [] :=
  rfl

@[simp]
lemma folders_cons (name : List Char) (names : List (List Char)) :
    folders (name :: names) = '/' :: (name ++ folders names) :=
  rfl

/-- A plain character is neither white space at the margin, nor a slash, nor does it end the path. -/
lemma isPlain_iff (c : Char) :
    isPlain c ↔ isMargin c = false ∧ isSlash c = false ∧ endsPath c = false := by
  simp [isPlain, and_assoc]

/-- Letters and digits stand for themselves everywhere. -/
lemma of_isAlphanum {c : Char} (h : c.isAlphanum) :
    isPlain c ∧ c ≠ '%' ∧ c ≠ '.' ∧ encodedInPath c = false := by
  have hlt : c.toNat < 0x80 := by
    have hranges : ((decide (c.val ≥ 'A'.val ∧ c.val ≤ 'Z'.val) || (c.val ≥ 'a'.val && c.val ≤ 'z'.val)) ||
        (c.val ≥ '0'.val && c.val ≤ '9'.val)) = true := h
    simp only [Bool.or_eq_true, Bool.and_eq_true, decide_eq_true_eq, ge_iff_le,
      UInt32.le_iff_toNat_le] at hranges
    have : c.toNat = c.val.toNat := rfl
    have : 'Z'.val.toNat = 0x5A ∧ 'z'.val.toNat = 0x7A ∧ '9'.val.toNat = 0x39 := by decide
    omega
  have hall : ∀ c : Char, c.toNat < 0x80 → c.isAlphanum →
      isPlain c ∧ c ≠ '%' ∧ c ≠ '.' ∧ encodedInPath c = false := Text.forall_ascii (by decide)
  exact hall c hlt h

/-- Line breaks are margins. -/
lemma isBreak_eq_false {c : Char} (h : isMargin c = false) : isBreak c = false := by
  by_contra hbreak
  rw [Bool.not_eq_false, isBreak, Bool.or_eq_true, Bool.or_eq_true, decide_eq_true_eq,
    decide_eq_true_eq, decide_eq_true_eq] at hbreak
  obtain (rfl | rfl) | rfl := hbreak <;> exact absurd h (by decide)

/-! ### Segments -/

/-- There is a segment always. -/
lemma segments_ne_nil (cs : List Char) : segments cs ≠ [] := by
  fun_cases segments cs <;> simp

lemma segments_cons_of_slash {c : Char} (h : isSlash c) (cs : List Char) :
    segments (c :: cs) = [] :: segments cs := by
  rw [segments, if_pos h]

/-- Any other character belongs to the first one. -/
lemma segments_cons {c : Char} (h : isSlash c = false) {cs s : List Char} {more : List (List Char)}
    (hcs : segments cs = s :: more) : segments (c :: cs) = (c :: s) :: more := by
  rw [segments, h, hcs]
  rfl

/-- A slash separates what stands before it from what stands behind it. -/
lemma segments_append_slash (cs ds : List Char) :
    segments (cs ++ '/' :: ds) = segments cs ++ segments ds := by
  induction cs with
  | nil => rfl
  | cons c cs ih =>
    obtain ⟨s, more, hcs⟩ := List.exists_cons_of_ne_nil (segments_ne_nil cs)
    cases h : isSlash c with
    | true => rw [List.cons_append, segments_cons_of_slash h, segments_cons_of_slash h, ih,
        List.cons_append]
    | false =>
      have happ : segments (cs ++ '/' :: ds) = s :: (more ++ segments ds) := by
        rw [ih, hcs, List.cons_append]
      rw [List.cons_append, segments_cons h happ, segments_cons h hcs, List.cons_append]

lemma segments_eq_singleton {cs : List Char} (h : ∀ c ∈ cs, isSlash c = false) :
    segments cs = [cs] := by
  induction cs with
  | nil => rfl
  | cons c cs ih =>
    rw [List.forall_mem_cons] at h
    exact segments_cons h.1 (ih h.2)

/-- Each folder behind a text is a segment. -/
lemma segments_folders (cs : List Char) {names : List (List Char)}
    (h : ∀ name ∈ names, ∀ c ∈ name, isSlash c = false) :
    segments (cs ++ folders names) = segments cs ++ names := by
  induction names generalizing cs with
  | nil => rw [folders_nil, List.append_nil, List.append_nil]
  | cons name names ih =>
    rw [List.forall_mem_cons] at h
    rw [folders_cons, segments_append_slash, ih name h.2, segments_eq_singleton h.1]
    rfl

/-- A segment is a part of the path without slashes. -/
lemma mem_segments {s cs : List Char} (h : s ∈ segments cs) :
    s.Sublist cs ∧ ∀ c ∈ s, isSlash c = false := by
  induction cs generalizing s with
  | nil => simp_all [segments]
  | cons c cs ih =>
    cases hc : isSlash c with
    | true =>
      rw [segments_cons_of_slash hc, List.mem_cons] at h
      obtain rfl | h := h
      · exact ⟨List.nil_sublist _, by simp⟩
      · exact ⟨(ih h).1.cons c, (ih h).2⟩
    | false =>
      obtain ⟨first, more, hcs⟩ := List.exists_cons_of_ne_nil (segments_ne_nil cs)
      rw [hcs] at ih
      rw [segments_cons hc hcs, List.mem_cons] at h
      obtain rfl | h := h
      · have hfirst := ih List.mem_cons_self
        exact ⟨hfirst.1.cons_cons c, List.forall_mem_cons.mpr ⟨hc, hfirst.2⟩⟩
      · have hs := ih (List.mem_cons_of_mem _ h)
        exact ⟨hs.1.cons c, hs.2⟩

/-! ### Resolved segments -/

/-- A segment that stands for the same or for the parent folder. -/
def isDots (s : List Char) : Bool :=
  plainDots s = ['.'] || plainDots s = ['.', '.']

/-- Letters and digits are no dots. -/
lemma isDots_eq_false {s : List Char} (h : ∀ c ∈ s, c.isAlphanum) : isDots s = false := by
  cases s with
  | nil => rfl
  | cons c s =>
    obtain ⟨-, hpercent, hdot, -⟩ := of_isAlphanum (h c List.mem_cons_self)
    have hdots : plainDots (c :: s) = c :: plainDots s := by
      rw [plainDots] <;> exact fun _ heq => absurd heq hpercent
    simp [isDots, hdots, hdot]

/-- A segment without dots is passed. -/
lemma resolve_cons {s : List Char} (h : isDots s = false) (passed rest : List (List Char)) :
    resolve passed (s :: rest) = resolve (percentEncode encodedInPath s :: passed) rest := by
  rw [isDots, Bool.or_eq_false_iff, decide_eq_false_iff_not, decide_eq_false_iff_not] at h
  rw [resolve, if_neg h.2, if_neg h.1]

/-- Without segments of dots, all segments are left. -/
lemma resolve_eq_map {segs : List (List Char)} (h : ∀ s ∈ segs, isDots s = false)
    (passed : List (List Char)) :
    resolve passed segs = passed.reverse ++ segs.map (percentEncode encodedInPath) := by
  induction segs generalizing passed with
  | nil => rw [resolve, List.map_nil, List.append_nil]
  | cons s rest ih =>
    rw [List.forall_mem_cons] at h
    rw [resolve_cons h.1, ih h.2, List.reverse_cons, List.append_assoc, List.map_cons,
      List.singleton_append]

/-- What resolving a segment can leave behind: an empty segment, or an encoded one. -/
def Leaves (segs : List (List Char)) (e : List Char) : Prop :=
  e = [] ∨ ∃ s ∈ segs, isDots s = false ∧ e = percentEncode encodedInPath s

lemma Leaves.cons {rest : List (List Char)} {e : List Char} (h : Leaves rest e) (s : List Char) :
    Leaves (s :: rest) e :=
  h.imp_right fun ⟨t, ht, hdots⟩ => ⟨t, List.mem_cons_of_mem _ ht, hdots⟩

/-- Resolving drops some of the folders that were passed last and leaves other segments behind the
rest of them. -/
lemma exists_resolve_eq (passed segs : List (List Char)) :
    ∃ n left, resolve passed segs = (passed.drop n).reverse ++ left ∧ ∀ e ∈ left, Leaves segs e := by
  induction segs generalizing passed with
  | nil => exact ⟨0, [], by simp [resolve], by simp⟩
  | cons s rest ih =>
    cases hs : isDots s with
    | false =>
      obtain ⟨n, left, heq, hleft⟩ := ih (percentEncode encodedInPath s :: passed)
      rw [resolve_cons hs, heq]
      cases n with
      | zero =>
        refine ⟨0, percentEncode encodedInPath s :: left, by simp, ?_⟩
        exact List.forall_mem_cons.mpr
          ⟨.inr ⟨s, List.mem_cons_self, hs, rfl⟩, fun e he => (hleft e he).cons s⟩
      | succ n => exact ⟨n, left, by simp, fun e he => (hleft e he).cons s⟩
    | true =>
      -- A segment of dots goes on behind the folders passed, or behind all but the last of them.
      have hgo : ∃ m, resolve passed (s :: rest) =
          resolve (if rest.isEmpty then [] :: passed.drop m else passed.drop m) rest := by
        rw [isDots, Bool.or_eq_true, decide_eq_true_eq, decide_eq_true_eq] at hs
        obtain hs | hs := hs
        · exact ⟨0, by simp [resolve, hs]⟩
        · exact ⟨1, by simp [resolve, hs]⟩
      obtain ⟨m, hm⟩ := hgo
      rw [hm]
      cases rest with
      | nil => exact ⟨m, [[]], by simp [resolve], by simp [Leaves]⟩
      | cons t rest =>
        obtain ⟨n, left, heq, hleft⟩ := ih (passed.drop m)
        refine ⟨m + n, left, ?_, fun e he => (hleft e he).cons s⟩
        rw [← List.drop_drop]
        exact heq

/-- What is left behind the folders passed comes from a segment. -/
lemma mem_drop_resolve {passed segs : List (List Char)} {e : List Char}
    (h : e ∈ (resolve passed segs).drop passed.length) : Leaves segs e := by
  obtain ⟨n, left, heq, hleft⟩ := exists_resolve_eq passed segs
  have hlen : (passed.drop n).reverse.length ≤ passed.length := by
    rw [List.length_reverse, List.length_drop]
    omega
  rw [heq, List.drop_append, List.drop_eq_nil_of_le hlen, List.nil_append] at h
  exact hleft e (List.mem_of_mem_drop h)

/-! ### The written path -/

/-- The part of an appended text that belongs to the path: without line breaks, up to a query or a
fragment. -/
def visible (cs : List Char) : List Char :=
  (cs.filter fun c => !isBreak c).takeWhile fun c => !endsPath c

/-- The part of the end of an address that belongs to the path. -/
def pathPart (cs : List Char) : List Char :=
  visible (cs.rdropWhile isMargin)

/-- What is visible of a text is part of it. -/
lemma visible_sublist (cs : List Char) : (visible cs).Sublist cs :=
  (List.takeWhile_sublist _).trans List.filter_sublist

lemma mem_visible {cs : List Char} {c : Char} (h : c ∈ visible cs) :
    isBreak c = false ∧ endsPath c = false := by
  have hend := List.mem_takeWhile_imp h
  have hbreak := (List.mem_filter.mp ((List.takeWhile_sublist _).subset h)).2
  exact ⟨by simpa using hbreak, by simpa using hend⟩

/-- A text without line breaks and marks that end the path is visible as it is. -/
lemma visible_eq_self {cs : List Char} (h : ∀ c ∈ cs, isBreak c = false ∧ endsPath c = false) :
    visible cs = cs := by
  rw [visible, List.filter_eq_self.mpr fun c hc => by simp [(h c hc).1],
    List.takeWhile_eq_self_iff.mpr fun c hc => by simp [(h c hc).2]]

/-- Folders behind a text are in the path unless the text begins a query or a fragment. -/
lemma visible_append {cs ds : List Char} (h : ∀ c ∈ ds, isBreak c = false ∧ endsPath c = false) :
    visible (cs ++ ds) = visible cs ++ ds ∨ visible (cs ++ ds) = visible cs := by
  have hds : (ds.filter fun c => !isBreak c).takeWhile (fun c => !endsPath c) = ds := visible_eq_self h
  unfold visible
  rw [List.filter_append, List.takeWhile_append, hds]
  split
  next hlen =>
    rw [(List.takeWhile_sublist _).eq_of_length hlen]
    exact .inl rfl
  next => exact .inr rfl

/-- Such a text in front of another one stays there. -/
lemma append_visible {cs ds : List Char} (h : ∀ c ∈ ds, isBreak c = false ∧ endsPath c = false) :
    visible (ds ++ cs) = ds ++ visible cs := by
  unfold visible
  rw [List.filter_append, List.filter_eq_self.mpr fun c hc => by simp [(h c hc).1],
    List.takeWhile_append_of_pos fun c hc => by simp [(h c hc).2]]

/-- Only margins at the end are dropped. -/
lemma rdropWhile_append {front : List Char} (h : ∀ c ∈ front, isMargin c = false)
    (cs : List Char) :
    (front ++ cs).rdropWhile isMargin = front ++ cs.rdropWhile isMargin := by
  induction cs using List.reverseRecOn with
  | nil =>
    rw [List.append_nil, List.rdropWhile_nil, List.append_nil, List.rdropWhile_eq_self_iff]
    exact fun hne => by simp [h _ (List.getLast_mem hne)]
  | append_singleton cs c ih =>
    rw [← List.append_assoc]
    cases hc : isMargin c with
    | true => rw [List.rdropWhile_concat_pos _ _ _ hc, List.rdropWhile_concat_pos _ _ _ hc, ih]
    | false =>
      rw [List.rdropWhile_concat_neg _ _ _ (by simp [hc]),
        List.rdropWhile_concat_neg _ _ _ (by simp [hc]), List.append_assoc]

/-- Folders with plain names have no margins, and no mark that ends a path. -/
lemma mem_folders {names : List (List Char)} (h : ∀ name ∈ names, ∀ c ∈ name, isPlain c) {c : Char}
    (hc : c ∈ folders names) : isMargin c = false ∧ endsPath c = false := by
  obtain ⟨name, hname, hc⟩ := List.mem_flatMap.mp hc
  obtain rfl | hc := List.mem_cons.mp hc
  · decide
  · have := (isPlain_iff c).mp (h name hname c hc)
    exact ⟨this.1, this.2.2⟩

/-- What is left of a text in front of folders: margins are dropped only at the end of an address. -/
def beforeFolders (names : List (List Char)) (cs : List Char) : List Char :=
  if names.isEmpty then cs.rdropWhile isMargin else cs

@[simp]
lemma beforeFolders_nil (cs : List Char) : beforeFolders [] cs = cs.rdropWhile isMargin :=
  rfl

/-- Nothing is added to a text in front of folders. -/
lemma beforeFolders_sublist (names : List (List Char)) (cs : List Char) :
    (beforeFolders names cs).Sublist cs := by
  unfold beforeFolders
  split
  · exact (List.rdropWhile_prefix _ _).sublist
  · exact List.Sublist.refl _

/-- In front of folders white space stays in the path. -/
lemma pathPart_append_folders {names : List (List Char)}
    (h : ∀ name ∈ names, ∀ c ∈ name, isPlain c) (cs : List Char) :
    pathPart (cs ++ folders names) = visible (beforeFolders names cs ++ folders names) := by
  cases names with
  | nil => rw [beforeFolders, folders_nil, List.append_nil, List.append_nil]; rfl
  | cons name names =>
    have hself : (cs ++ folders (name :: names)).rdropWhile isMargin =
        cs ++ folders (name :: names) := by
      rw [List.rdropWhile_eq_self_iff]
      intro hne
      have hnil : folders (name :: names) ≠ [] := List.cons_ne_nil _ _
      rw [List.getLast_append_of_ne_nil hne hnil, (mem_folders h (List.getLast_mem hnil)).1]
      exact Bool.false_ne_true
    rw [pathPart, hself]
    rfl

/-- The segments of a path to which folders are appended: those of the text in front, and the folders. -/
lemma mem_segments_pathPart {names : List (List Char)} (h : ∀ name ∈ names, ∀ c ∈ name, isPlain c)
    {cs s : List Char} (hs : s ∈ segments (pathPart (cs ++ folders names))) :
    s ∈ segments (visible (beforeFolders names cs)) ∨ s ∈ names := by
  have hplain : ∀ c ∈ folders names, isBreak c = false ∧ endsPath c = false := fun c hc =>
    ⟨isBreak_eq_false (mem_folders h hc).1, (mem_folders h hc).2⟩
  have hslash : ∀ name ∈ names, ∀ c ∈ name, isSlash c = false := fun name hname c hc =>
    ((isPlain_iff c).mp (h name hname c hc)).2.1
  rw [pathPart_append_folders h] at hs
  obtain heq | heq := @visible_append (beforeFolders names cs) _ hplain
  · rwa [heq, segments_folders _ hslash, List.mem_append] at hs
  · exact .inl (heq ▸ hs)

/-! ### Encoded characters -/

/-- Encoding leaves no character that ends the path, and adds no slash. -/
lemma mem_percentEncode {cs : List Char} {c : Char} (h : c ∈ percentEncode encodedInPath cs) :
    endsPath c = false ∧ (c = '/' → c ∈ cs) := by
  obtain ⟨d, hd, hc⟩ := List.mem_flatMap.mp h
  unfold percentEncodeChar at hc
  split at hc
  · obtain ⟨b, -, hc⟩ := List.mem_flatMap.mp hc
    have hdigit : ∀ n < 16, endsPath (upperHexDigit n) = false ∧ upperHexDigit n ≠ '/' := by decide
    have hb := b.toNat_lt
    simp only [percentByte, List.mem_cons, List.not_mem_nil, or_false] at hc
    obtain rfl | rfl | rfl := hc
    · exact ⟨rfl, fun heq => absurd heq (by decide)⟩
    · exact (hdigit _ (by omega)).imp_right fun hne heq => absurd heq hne
    · exact (hdigit _ (by omega)).imp_right fun hne heq => absurd heq hne
  next hkeep =>
    obtain rfl := List.mem_singleton.mp hc
    refine ⟨?_, fun _ => hd⟩
    simp only [encodedInPath, Bool.or_eq_true, not_or, decide_eq_true_eq] at hkeep
    simp [endsPath, hkeep]

/-- What a path stands for does not depend on whether it is encoded. -/
lemma percentDecode?_encodedInPath (cs : List Char) :
    Text.percentDecode? (String.ofList (percentEncode encodedInPath cs)) =
      Text.percentDecode? (String.ofList cs) :=
  Text.percentDecode?_percentEncode rfl (fun _ hx => (of_isAlphanum hx).2.2.2) cs

/-- A resolved segment of a path can be told from what follows it. -/
lemma mem_resolve_segments {cs e : List Char} (he : e ∈ resolve [] (segments cs)) {c : Char}
    (hc : c ∈ e) : c ≠ '/' ∧ endsPath c = false := by
  obtain rfl | ⟨s, hs, -, rfl⟩ := @mem_drop_resolve [] _ _ he
  · exact absurd hc List.not_mem_nil
  · refine ⟨fun heq => ?_, (mem_percentEncode hc).1⟩
    have hslash := (mem_segments hs).2 c ((mem_percentEncode hc).2 heq)
    rw [heq] at hslash
    exact absurd hslash (by decide)

/-! ### The address of a site -/

/-- An address of the web without a path: a scheme and a host. -/
def IsSite (address : String) : Prop :=
  ∃ scheme ∈ ["http://", "https://"], ∃ host : List Char, host ≠ [] ∧ (∀ c ∈ host, isPlain c) ∧
    address.toList = scheme.toList ++ host

/-- A text with no margins stays in front of what is cleaned behind it. -/
lemma clean_append {front : List Char} (hne : front ≠ []) (h : ∀ c ∈ front, isMargin c = false)
    (cs : List Char) :
    clean (front ++ cs) = front ++ (cs.rdropWhile isMargin).filter fun c => !isBreak c := by
  have hdrop : (front ++ cs).dropWhile isMargin = front ++ cs := by
    cases front with
    | nil => exact absurd rfl hne
    | cons c front => simp [h c List.mem_cons_self]
  change (((front ++ cs).dropWhile isMargin).rdropWhile isMargin).filter _ = _
  rw [hdrop, rdropWhile_append h, List.filter_append,
    List.filter_eq_self.mpr fun c hc => by simp [isBreak_eq_false (h c hc)]]

section Site

variable {scheme : String} (hscheme : scheme ∈ ["http://", "https://"]) {host : List Char}
  (hne : host ≠ []) (hhost : ∀ c ∈ host, isPlain c)

include hscheme hhost in
/-- The site stays in front of the path. -/
lemma clean_site (cs : List Char) :
    clean (scheme.toList ++ (host ++ '/' :: cs)) =
      scheme.toList ++ (host ++ '/' :: (cs.rdropWhile isMargin).filter fun c => !isBreak c) := by
  have hschemes : ∀ scheme ∈ ["http://", "https://"], scheme.toList.any isMargin = false := by
    decide
  have hfront : ∀ c ∈ scheme.toList ++ host ++ ['/'], isMargin c = false := by
    intro c hc
    obtain (hc | hc) | hc := List.mem_append.mp hc |>.imp_left List.mem_append.mp
    · exact Bool.eq_false_iff.mpr (List.any_eq_false.mp (hschemes scheme hscheme) c hc)
    · exact ((isPlain_iff c).mp (hhost c hc)).1
    · rw [List.mem_singleton.mp hc]
      rfl
  have hclean := clean_append (by simp) hfront cs
  simpa using hclean

include hscheme hne hhost in
/-- Behind the scheme and its slashes stands the host. -/
lemma afterScheme?_site (cs : List Char) :
    afterScheme? (scheme.toList ++ (host ++ cs)) = some (host ++ cs) := by
  obtain ⟨c, host, rfl⟩ := List.exists_cons_of_ne_nil hne
  have hc : isSlash c = false := ((isPlain_iff c).mp (hhost c List.mem_cons_self)).2.1
  have hslash : isSlash '/' = true := rfl
  simp only [List.mem_cons, List.not_mem_nil, or_false] at hscheme
  obtain rfl | rfl := hscheme
  · simp [afterScheme?, List.dropWhile, List.takeWhile, hc, hslash]
  · simp [afterScheme?, List.dropWhile, List.takeWhile, hc, hslash]

include hhost in
/-- The host ends where the path begins. -/
lemma span_host (cs : List Char) :
    (host ++ '/' :: cs).takeWhile (fun c => !isSlash c && !endsPath c) = host ∧
      (host ++ '/' :: cs).dropWhile (fun c => !isSlash c && !endsPath c) = '/' :: cs := by
  have hin : ∀ c ∈ host, (!isSlash c && !endsPath c) = true := fun c hc => by
    simp [(isPlain_iff c).mp (hhost c hc)]
  rw [List.takeWhile_append_of_pos hin, List.dropWhile_append_of_pos hin]
  simp [isSlash]

end Site

/-- A path that is appended to the address of a site, as a server sees it. -/
theorem target?_append {address : String} (h : IsSite address) (cs : List Char) :
    ∃ query, (query = [] ∨ query.head? = some '?') ∧
      target? (address ++ String.ofList ('/' :: cs)) =
        some (String.ofList (folders (resolve [] (segments (pathPart cs))) ++ query)) := by
  obtain ⟨scheme, hscheme, host, hne, hhost, haddress⟩ := h
  refine ⟨normalQuery (((cs.rdropWhile isMargin).filter fun c => !isBreak c).dropWhile
    fun c => !endsPath c), ?_, ?_⟩
  · unfold normalQuery
    split
    · exact .inr rfl
    · exact .inl rfl
  · unfold target?
    rw [String.toList_append, haddress, String.toList_ofList, List.append_assoc,
      clean_site hscheme hhost, afterScheme?_site hscheme hne hhost]
    simp only [Option.bind_eq_bind, Option.bind_some, span_host hhost, List.isEmpty_iff, hne, if_false]
    rfl

/-- The path of a request for a path that is appended to the address of a site. -/
theorem path_of_target? {address : String} (h : IsSite address) (cs : List Char) :
    ∃ target, target? (address ++ String.ofList ('/' :: cs)) = some target ∧
      ∀ r : Request, r.target = target →
        r.path = String.ofList (folders (resolve [] (segments (pathPart cs)))) := by
  obtain ⟨query, hquery, htarget⟩ := target?_append h cs
  refine ⟨_, htarget, fun r hr => ?_⟩
  have hfolders : ∀ c ∈ folders (resolve [] (segments (pathPart cs))),
      (c ≠ '?' && c ≠ '#') = true := by
    intro c hc
    obtain ⟨e, he, hc⟩ := List.mem_flatMap.mp hc
    obtain rfl | hc := List.mem_cons.mp hc
    · rfl
    · simpa [endsPath] using (mem_resolve_segments he hc).2
  rw [Request.path, hr, String.toList_ofList, List.takeWhile_append_of_pos hfolders]
  obtain rfl | hquery := hquery
  · rw [List.takeWhile_nil, List.append_nil]
  · obtain ⟨rest, rfl⟩ := List.head?_eq_some_iff.mp hquery
    rw [List.takeWhile_cons_of_neg (by simp), List.append_nil]

end DialogueSync.Http.Url
