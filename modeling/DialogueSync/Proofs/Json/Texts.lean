import DialogueSync.Json.Printer
import DialogueSync.Json.Reader
import DialogueSync.Proofs.Json.Literals

/-!
# Reading what was written

The text of a value is read as this value, but for its floating-point numbers, each of which comes back as what its
digits are read as (`parse?_render`). Whole numbers have to fit in 64 bits for that, floating-point numbers have to be
finite, and no more than 127 arrays and objects may be open at a time; all this is what `ReadsAs` says.

The text is followed from left to right. Behind the text of a part the reader has put the part into whatever is open
around it, and goes on between two marks (`ReadsAs.reads`).
-/

namespace DialogueSync.Json

variable {mode : Mode} {p : Progress} {c : Char} {rest : List Char}

/-! ### Characters and words -/

/-- A character in the middle of a mark. -/
lemma readFrom_of_step (mode' : Mode) (h : mode.step c = ([], some mode')) :
    readFrom mode p (c :: rest) = readFrom mode' p rest := by
  rw [readFrom, h]
  rfl

/-- A character that completes a mark. -/
lemma readFrom_of_mark (mark : Mark) (h : mode.step c = ([mark], some .between)) :
    readFrom mode p (c :: rest) = p.step mark >>= fun q => readFrom .between q rest := by
  rw [readFrom, h]
  simp only [List.foldlM_cons, List.foldlM_nil, bind_pure]

lemma readFrom_null :
    readFrom .between p ('n' :: 'u' :: 'l' :: 'l' :: rest) =
      p.step (.scalar (some .null)) >>= fun q => readFrom .between q rest := by
  rw [readFrom_of_step (.word ['u', 'l', 'l'] .null) rfl, readFrom_of_step (.word ['l', 'l'] .null) rfl,
    readFrom_of_step (.word ['l'] .null) rfl, readFrom_of_mark (.scalar (some .null)) rfl]

/-- A word is read as what it says. -/
lemma readFrom_bool (b : Bool) :
    readFrom .between p (chars (.bool b) rest) =
      p.step (.scalar (some (.bool b))) >>= fun q => readFrom .between q rest := by
  cases b with
  | true =>
    rw [chars, readFrom_of_step (.word ['r', 'u', 'e'] (.bool true)) rfl,
      readFrom_of_step (.word ['u', 'e'] (.bool true)) rfl, readFrom_of_step (.word ['e'] (.bool true)) rfl,
      readFrom_of_mark (.scalar (some (.bool true))) rfl]
  | false =>
    rw [chars, readFrom_of_step (.word ['a', 'l', 's', 'e'] (.bool false)) rfl,
      readFrom_of_step (.word ['l', 's', 'e'] (.bool false)) rfl,
      readFrom_of_step (.word ['s', 'e'] (.bool false)) rfl, readFrom_of_step (.word ['e'] (.bool false)) rfl,
      readFrom_of_mark (.scalar (some (.bool false))) rfl]

/-! ### Texts -/

/-- Hexadecimal digits are read as they are written. -/
lemma hexDigit?_hexDigit {n : Nat} (h : n < 16) : hexDigit? (hexDigit n) = some n := by
  revert n
  decide

/-- What stands for a character is read as this character. -/
lemma readFrom_escape (codes : List Nat) (c : Char) :
    readFrom (.string codes) p (escape c ++ rest) = readFrom (.string (c.toNat :: codes)) p rest := by
  fun_cases escape c
  case case8 hcontrol =>
    have hhigh := hexDigit?_hexDigit (show c.toNat / 16 < 16 by omega)
    have hlow := hexDigit?_hexDigit (Nat.mod_lt c.toNat (by decide : 16 > 0))
    have hcode : ((0 * 16 + 0) * 16 + c.toNat / 16) * 16 + c.toNat % 16 = c.toNat := by omega
    simp only [List.cons_append, List.nil_append]
    rw [readFrom_of_step (.escape codes) rfl, readFrom_of_step (.code codes []) rfl,
      readFrom_of_step (.code codes [0]) rfl, readFrom_of_step (.code codes [0, 0]) rfl,
      readFrom_of_step (.code codes [c.toNat / 16, 0, 0]) (by rw [Mode.step, hhigh]; rfl),
      readFrom_of_step (.string ((((0 * 16 + 0) * 16 + c.toNat / 16) * 16 + c.toNat % 16) :: codes))
        (by rw [Mode.step, hlow]; rfl), hcode]
  case case9 hquote hbackslash _ _ _ _ _ hcontrol =>
    refine readFrom_of_step _ ?_
    rw [Mode.step, if_neg hquote, if_neg hbackslash, if_neg hcontrol]
  all_goals
    subst_vars
    exact (readFrom_of_step (.escape codes) rfl).trans (readFrom_of_step _ rfl)

/-- What stands for the characters of a text is read as these characters. -/
lemma readFrom_escapes (codes : List Nat) (cs : List Char) :
    readFrom (.string codes) p (cs.flatMap escape ++ rest) =
      readFrom (.string ((cs.map Char.toNat).reverse ++ codes)) p rest := by
  induction cs generalizing codes with
  | nil => rfl
  | cons c more ih =>
    rw [List.flatMap_cons, List.append_assoc, readFrom_escape, ih]
    simp

/-- No character is half of a pair. -/
lemma not_isHalf (c : Char) : isFirstHalf c.toNat = false ∧ isSecondHalf c.toNat = false := by
  have hvalid : c.toNat < 0xD800 ∨ 0xDFFF < c.toNat ∧ c.toNat < 0x110000 := c.valid
  simp only [isFirstHalf, isSecondHalf, Bool.and_eq_false_iff, decide_eq_false_iff_not]
  omega

/-- The codes of characters spell these characters. -/
lemma spell_toNat (cs spelled : List Char) :
    spell (cs.map Char.toNat) spelled = some (cs.reverse ++ spelled) := by
  induction cs generalizing spelled with
  | nil => rfl
  | cons c more ih =>
    obtain ⟨hfirst, hsecond⟩ := not_isHalf c
    cases more with
    | nil => simp [spell, hfirst, hsecond, Char.ofNat_toNat]
    | cons d more =>
      have hmore := ih (c :: spelled)
      simp only [List.map_cons] at hmore ⊢
      rw [spell, hfirst, hsecond]
      simp [hmore, Char.ofNat_toNat]

/-- The codes of a text, gathered from its end, spell the text. -/
lemma spelled?_toNat (s : String) : spelled? (s.toList.map Char.toNat).reverse = some s := by
  rw [spelled?, ← List.map_reverse, spell_toNat]
  simp

/-- A text between quotes is read as this text. -/
lemma readFrom_quoted (s : String) :
    readFrom .between p (quoted s ++ rest) = p.step (.text (some s)) >>= fun q => readFrom .between q rest := by
  rw [quoted, List.cons_append, List.cons_append, List.append_assoc, readFrom_of_step (.string []) rfl,
    readFrom_escapes, List.append_nil]
  refine (readFrom_of_mark (.text (spelled? _)) rfl).trans ?_
  rw [spelled?_toNat]
  rfl

/-! ### Numbers -/

/-- The text ends here, or the array or object that is open does, or its next item or field follows. -/
def Ends (rest : List Char) : Prop :=
  ∀ c ∈ rest.head?, c = ',' ∨ c = ']' ∨ c = '\x7d'

/-- The characters of a number are gathered. -/
lemma readFrom_of_after? {place place' : Place} {read cs : List Char} (h : place.after? cs = some place') :
    readFrom (.number place read) p (cs ++ rest) = readFrom (.number place' (cs.reverse ++ read)) p rest := by
  induction cs generalizing place read with
  | nil =>
    cases h
    rfl
  | cons c more ih =>
    rw [Place.after?, List.foldlM_cons] at h
    obtain ⟨next, hnext, h⟩ := Option.bind_eq_some_iff.mp h
    rw [List.cons_append, readFrom_of_step (.number next (c :: read)) (by rw [Mode.step, hnext]), ih h]
    simp

/-- The mark of a number is taken in as soon as something else follows. -/
lemma readFrom_of_isFinal {place : Place} {read : List Char} (hplace : place.isFinal = true) (hrest : Ends rest) :
    readFrom (.number place read) p rest = p.step (numberMark read) >>= fun q => readFrom .between q rest := by
  cases rest with
  | nil =>
    rw [readFrom, Mode.finish?, if_pos hplace]
    simp only [List.foldlM_cons, List.foldlM_nil, bind_pure]
    rfl
  | cons c more =>
    have hnext : place.next? c = none := by
      rcases hrest c rfl with rfl | rfl | rfl <;> cases place <;> rfl
    have hstep : (Mode.number place read).step c = (numberMark read :: (Mode.start c).1, (Mode.start c).2) := by
      rw [Mode.step, hnext]
      exact if_pos hplace
    rw [readFrom, hstep, List.foldlM_cons, bind_assoc]
    rfl

/-- A digit begins a number. -/
lemma start_of_sign {place : Place} (h : Place.sign.next? c = some place) :
    Mode.start c = ([], some (.number place [c])) := by
  fun_cases Mode.start c
  case case1 hgap =>
    simp only [isGap, Bool.or_eq_true, decide_eq_true_eq] at hgap
    rcases hgap with ((rfl | rfl) | rfl) | rfl <;> cases h
  case case13 => rw [h, Option.map_some]
  all_goals
    subst_vars
    cases h

/-- A literal is read as a number. -/
lemma readFrom_literal {l : Literal} {cs : List Char} (h : literal? cs = some l) (hrest : Ends rest) :
    readFrom .between p (cs ++ rest) = p.step (.scalar l.value?) >>= fun q => readFrom .between q rest := by
  obtain ⟨place, hplace, hafter⟩ := exists_after?_of_literal? h
  have hmark : numberMark cs.reverse = .scalar l.value? := by
    rw [numberMark, List.reverse_reverse, h, Option.bind_some]
  cases cs with
  | nil =>
    cases hafter
    cases hplace
  | cons c more =>
    -- A sign leads to the place where the digits begin, and any other character is a digit already.
    by_cases hc : c = '-'
    · subst hc
      have hafter : Place.sign.after? more = some place := hafter
      have hstart : Mode.between.step '-' = ([], some (.number .sign ['-'])) := rfl
      rw [List.cons_append, readFrom_of_step _ hstart, readFrom_of_after? hafter, ← List.reverse_cons,
        readFrom_of_isFinal hplace hrest, hmark]
    · have hsign : ((c :: more).head? == some '-') = false := by simpa using hc
      rw [hsign] at hafter
      obtain ⟨first, hfirst, hafter⟩ := Option.bind_eq_some_iff.mp hafter
      have hstart : Mode.between.step c = ([], some (.number first [c])) := start_of_sign hfirst
      rw [List.cons_append, readFrom_of_step _ hstart, readFrom_of_after? hafter, ← List.reverse_cons,
        readFrom_of_isFinal hplace hrest, hmark]

/-! ### Values -/

/-- What the text of the value is read as, if no more than so many arrays and objects are open in it at a time. -/
inductive ReadsAs : Nat → Json → Json → Prop where
  | null {d : Nat} : ReadsAs d .null .null
  | bool {d : Nat} (b : Bool) : ReadsAs d (.bool b) (.bool b)
  /-- Whole numbers have to fit in 64 bits. -/
  | int {d : Nat} {n : Int} (hmin : -2 ^ 63 ≤ n) (hmax : n < 2 ^ 64) : ReadsAs d (.int n) (.int n)
  /-- Floating-point numbers have to be finite. -/
  | float {d : Nat} {x y : Float} (hfinite : x.isFinite = true) (hread : reread? x = some y) :
    ReadsAs d (.float x) (.float y)
  | str {d : Nat} (s : String) : ReadsAs d (.str s) (.str s)
  /-- Each item is read by itself. -/
  | arr {d : Nat} (items : List (Json × Json)) (hitems : ∀ i ∈ items, ReadsAs d i.1 i.2) :
    ReadsAs (d + 1) (.arr (items.map Prod.fst)) (.arr (items.map Prod.snd))
  /-- And so is each field. -/
  | obj {d : Nat} (fields : List (String × Json × Json)) (hfields : ∀ f ∈ fields, ReadsAs d f.2.1 f.2.2) :
    ReadsAs (d + 1) (.obj (fields.map fun f => (f.1, f.2.1))) (.obj (fields.map fun f => (f.1, f.2.2)))

/-- The reader expects a value of any shape. -/
def Awaits (p : Progress) (frames : List Frame) : Prop :=
  ∀ mark, mark ≠ .closeArray → p.step mark = Progress.value frames .free mark

/-- Where a value is expected, reading its text puts the value that it is read as into what is open around it. -/
def Reads (d : Nat) (j j' : Json) : Prop :=
  ∀ ⦃p : Progress⦄ ⦃frames : List Frame⦄ ⦃rest : List Char⦄, Awaits p frames → frames.length + d ≤ maxDepth →
    Ends rest → readFrom .between p (chars j rest) = Progress.put frames j' >>= fun q => readFrom .between q rest

variable {d : Nat} {frames : List Frame}

/-- Behind a colon or a comma a value of any shape is expected. -/
lemma awaits_value : Awaits ⟨frames, .value .free⟩ frames :=
  fun _ _ => rfl

lemma awaits_firstItem {items : List Json} :
    Awaits ⟨.array .free items :: frames, .firstItem⟩ (.array .free items :: frames) := by
  intro mark hmark
  cases mark with
  | closeArray => exact absurd rfl hmark
  | _ => rfl

lemma Ends.cons (hc : c = ',' ∨ c = ']' ∨ c = '\x7d') : Ends (c :: rest) := by
  intro c' hc'
  obtain rfl := Option.some.inj hc'
  exact hc

/-- Another item follows, or the end of the array. -/
lemma ends_itemChars (items : List Json) : Ends (itemChars items true (']' :: rest)) := by
  cases items with
  | nil => exact .cons (Or.inr (Or.inl rfl))
  | cons j more => exact .cons (Or.inl rfl)

lemma ends_fieldChars (fields : List (String × Json)) : Ends (fieldChars fields true ('\x7d' :: rest)) := by
  cases fields with
  | nil => exact .cons (Or.inr (Or.inr rfl))
  | cons f more => exact .cons (Or.inl rfl)

/-! ### Arrays -/

/-- Further items come behind those that are there. -/
lemma readFrom_moreItems {items : List (Json × Json)} (hitems : ∀ i ∈ items, Reads d i.1 i.2)
    (hd : frames.length + (d + 1) ≤ maxDepth) (given : List Json) :
    readFrom .between ⟨.array .free given :: frames, .more⟩ (itemChars (items.map Prod.fst) true (']' :: rest)) =
      Progress.put frames (.arr (given.reverse ++ items.map Prod.snd)) >>= fun q => readFrom .between q rest := by
  induction items generalizing given with
  | nil =>
    rw [List.map_nil, List.map_nil, List.append_nil, itemChars, readFrom_of_mark .closeArray rfl]
    rfl
  | cons i more ih =>
    obtain ⟨hi, hmore⟩ := List.forall_mem_cons.mp hitems
    rw [List.map_cons, itemChars]
    change readFrom .between _ (',' :: chars i.1 (itemChars (more.map Prod.fst) true (']' :: rest))) = _
    rw [readFrom_of_mark .comma rfl]
    have hlength : (Frame.array .free given :: frames).length + d ≤ maxDepth := by
      rw [List.length_cons]
      omega
    refine (hi awaits_value hlength (ends_itemChars _)).trans ?_
    refine (ih hmore (i.2 :: given)).trans ?_
    rw [List.reverse_cons, List.append_assoc]
    rfl

/-- The text of an array is read as the array of what its items are read as. -/
lemma reads_arr {items : List (Json × Json)} (hitems : ∀ i ∈ items, Reads d i.1 i.2) :
    Reads (d + 1) (.arr (items.map Prod.fst)) (.arr (items.map Prod.snd)) := by
  intro p frames rest hp hd _
  have hopen : p.step .openArray = .ok ⟨.array .free [] :: frames, .firstItem⟩ := by
    rw [hp _ (by simp)]
    exact if_neg (by simp; omega)
  rw [chars, readFrom_of_mark .openArray rfl, hopen]
  cases items with
  | nil => exact readFrom_of_mark .closeArray rfl
  | cons i more =>
    obtain ⟨hi, hmore⟩ := List.forall_mem_cons.mp hitems
    have hlength : (Frame.array .free [] :: frames).length + d ≤ maxDepth := by
      rw [List.length_cons]
      omega
    refine (hi awaits_firstItem hlength (ends_itemChars _)).trans ?_
    exact readFrom_moreItems hmore hd [i.2]

/-! ### Objects -/

/-- A field is put into the object that is open. -/
lemma readFrom_field {f : String × Json × Json} (hf : Reads d f.2.1 f.2.2) (hd : frames.length + (d + 1) ≤ maxDepth)
    (given : List (String × Json))
    (hp : p.step (.text (some f.1)) = .ok ⟨.field .free given (some f.1) :: frames, .colon .free⟩)
    (hrest : Ends rest) :
    readFrom .between p (quoted f.1 ++ ':' :: chars f.2.1 rest) =
      readFrom .between ⟨.object .free ((f.1, f.2.2) :: given) :: frames, .more⟩ rest := by
  have hlength : (Frame.field .free given (some f.1) :: frames).length + d ≤ maxDepth := by
    rw [List.length_cons]
    omega
  rw [readFrom_quoted, hp]
  change readFrom .between ⟨.field .free given (some f.1) :: frames, .colon .free⟩ (':' :: chars f.2.1 rest) = _
  rw [readFrom_of_mark .colon rfl]
  exact hf awaits_value hlength hrest

/-- Further fields come behind those that are there. -/
lemma readFrom_moreFields {fields : List (String × Json × Json)} (hfields : ∀ f ∈ fields, Reads d f.2.1 f.2.2)
    (hd : frames.length + (d + 1) ≤ maxDepth) (given : List (String × Json)) :
    readFrom .between ⟨.object .free given :: frames, .more⟩
        (fieldChars (fields.map fun f => (f.1, f.2.1)) true ('\x7d' :: rest)) =
      Progress.put frames (.obj (given.reverse ++ fields.map fun f => (f.1, f.2.2))) >>= fun q =>
        readFrom .between q rest := by
  induction fields generalizing given with
  | nil =>
    rw [List.map_nil, List.map_nil, List.append_nil, fieldChars, readFrom_of_mark .closeObject rfl]
    rfl
  | cons f more ih =>
    obtain ⟨hf, hmore⟩ := List.forall_mem_cons.mp hfields
    rw [List.map_cons, fieldChars]
    change readFrom .between _ (',' :: (quoted f.1 ++ ':' :: chars f.2.1 (fieldChars _ true _))) = _
    rw [readFrom_of_mark .comma rfl]
    refine (readFrom_field hf hd given rfl (ends_fieldChars _)).trans ?_
    refine (ih hmore ((f.1, f.2.2) :: given)).trans ?_
    rw [List.reverse_cons, List.append_assoc]
    rfl

/-- The text of an object is read as the object of what its values are read as. -/
lemma reads_obj {fields : List (String × Json × Json)} (hfields : ∀ f ∈ fields, Reads d f.2.1 f.2.2) :
    Reads (d + 1) (.obj (fields.map fun f => (f.1, f.2.1))) (.obj (fields.map fun f => (f.1, f.2.2))) := by
  intro p frames rest hp hd _
  have hopen : p.step .openObject = .ok ⟨.object .free [] :: frames, .firstName⟩ := by
    rw [hp _ (by simp)]
    exact if_neg (by simp; omega)
  rw [chars, readFrom_of_mark .openObject rfl, hopen]
  cases fields with
  | nil => exact readFrom_of_mark .closeObject rfl
  | cons f more =>
    obtain ⟨hf, hmore⟩ := List.forall_mem_cons.mp hfields
    refine (readFrom_field hf hd [] rfl (ends_fieldChars _)).trans ?_
    exact readFrom_moreFields hmore hd [(f.1, f.2.2)]

/-! ### Whole texts -/

/-- A number, a text or a word is put into what is open around it. -/
lemma step_scalar (hp : Awaits p frames) (j : Json) : p.step (.scalar (some j)) = Progress.put frames j := by
  rw [hp _ (by simp)]
  rfl

/-- The text of a value is read as `ReadsAs` says, wherever it stands. -/
theorem ReadsAs.reads {j j' : Json} (h : ReadsAs d j j') : Reads d j j' := by
  induction h with
  | null =>
    intro p frames rest hp _ _
    rw [chars, readFrom_null, step_scalar hp]
  | bool b =>
    intro p frames rest hp _ _
    rw [readFrom_bool, step_scalar hp]
  | int hmin hmax =>
    intro p frames rest hp _ hrest
    obtain ⟨l, hl, hvalue⟩ := Option.bind_eq_some_iff.mp (value?_intDigits hmin hmax)
    rw [chars, readFrom_literal hl hrest, hvalue, step_scalar hp]
  | float hfinite hread =>
    intro p frames rest hp _ hrest
    obtain ⟨l, hl, hvalue⟩ := Option.bind_eq_some_iff.mp (value?_of_reread? hread)
    rw [chars, if_pos hfinite, readFrom_literal hl hrest, hvalue, step_scalar hp]
  | str s =>
    intro p frames rest hp _ _
    rw [chars, readFrom_quoted, hp _ (by simp)]
    rfl
  | arr items _ ih => exact reads_arr ih
  | obj fields _ ih => exact reads_obj ih

/-- The text of a value is read as `ReadsAs` says. -/
theorem parse?_render {j j' : Json} (h : ReadsAs maxDepth j j') : parse? j.render = some j' := by
  have hread : readFrom .between ⟨[], .value .free⟩ (chars j []) = .ok j' :=
    h.reads awaits_value (by simp) (by simp [Ends])
  rw [parse?, read, render, String.toList_ofList, hread]
  rfl

end DialogueSync.Json
