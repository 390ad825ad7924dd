import DialogueSync.Text.Percent
import Mathlib.Data.List.Flatten

/-!
# Percent decoding after percent encoding

Percent encoding that leaves percent signs, letters and digits alone does not change what a text stands
for (`percentDecode?_percentEncode`). That is not to say that decoding undoes it: an escape that stands in
the text already is kept, and is still one afterwards. What a text stands for is never longer than the
text (`length_utf8_of_percentDecode?`).
-/

namespace DialogueSync.Text

/-! ### The bytes of a text -/

/-- The UTF-8 form of a text. -/
def utf8 (cs : List Char) : List UInt8 :=
  cs.flatMap String.utf8EncodeChar

@[simp]
lemma utf8_nil : utf8 [] = [] :=
  rfl

@[simp]
lemma utf8_cons (c : Char) (cs : List Char) : utf8 (c :: cs) = String.utf8EncodeChar c ++ utf8 cs :=
  rfl

/-- Texts are encoded one after the other. -/
lemma utf8_append (cs ds : List Char) : utf8 (cs ++ ds) = utf8 cs ++ utf8 ds :=
  List.flatMap_append

lemma byteArray_toList_loop (bs : ByteArray) (i : Nat) (r : List UInt8) :
    ByteArray.toList.loop bs i r = r.reverse ++ bs.data.toList.drop i := by
  fun_induction ByteArray.toList.loop bs i r with
  | case1 i r h ih =>
    have hi : i < bs.data.toList.length := by simpa using h
    have hget : bs.get! i = bs.data.toList[i] := getElem!_pos bs.data i h
    rw [ih, List.drop_eq_getElem_cons hi, hget]
    simp
  | case2 i r h =>
    rw [List.drop_eq_nil_of_le (by simpa using h), List.append_nil]

lemma byteArray_toList (bs : ByteArray) : bs.toList = bs.data.toList :=
  byteArray_toList_loop bs 0 []

lemma toList_toUTF8 (s : String) : s.toUTF8.toList = utf8 s.toList := by
  rw [byteArray_toList, String.toUTF8_eq_toByteArray, ← String.utf8Encode_toList, List.utf8Encode,
    List.toList_data_toByteArray, utf8]

/-- An ASCII character is its own byte, and no byte of any other character is ASCII. -/
lemma utf8EncodeChar_cases (c : Char) :
    (c.toNat < 0x80 ∧ String.utf8EncodeChar c = [UInt8.ofNat c.toNat]) ∨
      ∀ b ∈ String.utf8EncodeChar c, 0x80 ≤ b.toNat := by
  have hval : c.val.toNat = c.toNat := rfl
  unfold String.utf8EncodeChar
  simp only [hval]
  split
  · exact .inl ⟨by omega, rfl⟩
  · refine .inr fun b hb => ?_
    -- Leading and following bytes alike are a remainder to which a high bit is added.
    obtain ⟨x, hx, rfl⟩ : ∃ x, 0x80 ≤ x % 256 ∧ b = UInt8.ofNat x := by
      split at hb
      · simp only [List.mem_cons, List.not_mem_nil, or_false] at hb
        rcases hb with rfl | rfl <;> exact ⟨_, by omega, rfl⟩
      · split at hb <;> simp only [List.mem_cons, List.not_mem_nil, or_false] at hb
        · rcases hb with rfl | rfl | rfl <;> exact ⟨_, by omega, rfl⟩
        · rcases hb with rfl | rfl | rfl | rfl <;> exact ⟨_, by omega, rfl⟩
    rwa [UInt8.toNat_ofNat']

/-- Decides a property of all ASCII characters by trying them. -/
lemma forall_ascii {P : Char → Prop} (h : ∀ n < 0x80, P (Char.ofNat n)) (c : Char)
    (hc : c.toNat < 0x80) : P c := by
  have := h c.toNat hc
  rwa [Char.ofNat_toNat] at this

/-! ### Escapes -/

/-- The value of a hexadecimal digit in front, and what follows it. -/
def leadingDigit? : List UInt8 → Option (UInt8 × List UInt8)
  | [] => none
  | b :: rest => (hexValue? b).map (·, rest)

/-- The byte that two hexadecimal digits in front write, and what follows them. -/
def leadingByte? (bs : List UInt8) : Option (UInt8 × List UInt8) := do
  let (x, bs) ← leadingDigit? bs
  let (y, bs) ← leadingDigit? bs
  return (16 * x + y, bs)

/-- A percent sign stands for a byte if two hexadecimal digits follow it, and for itself otherwise. -/
lemma percentDecodeBytes_percent (bs : List UInt8) :
    percentDecodeBytes (0x25 :: bs) =
      match leadingByte? bs with
      | some (b, rest) => b :: percentDecodeBytes rest
      | none => 0x25 :: percentDecodeBytes bs := by
  match bs with
  | [] => rfl
  | [h] => cases hx : hexValue? h <;> simp [percentDecodeBytes, leadingByte?, leadingDigit?, hx]
  | h :: l :: rest =>
    cases hx : hexValue? h with
    | none => simp [percentDecodeBytes, leadingByte?, leadingDigit?, hx]
    | some x =>
      cases hy : hexValue? l with
      | none => simp [percentDecodeBytes, leadingByte?, leadingDigit?, hx, hy]
      | some y => simp [percentDecodeBytes, leadingByte?, leadingDigit?, hx, hy]

lemma percentDecodeBytes_cons {b : UInt8} (hb : b ≠ 0x25) (bs : List UInt8) :
    percentDecodeBytes (b :: bs) = b :: percentDecodeBytes bs := by
  match bs with
  | [] => rfl
  | [_] => rfl
  | _ :: _ :: _ => rw [percentDecodeBytes, if_neg hb]

/-- Bytes without a percent sign stand for themselves. -/
lemma percentDecodeBytes_append {bs : List UInt8} (h : 0x25 ∉ bs) (rest : List UInt8) :
    percentDecodeBytes (bs ++ rest) = bs ++ percentDecodeBytes rest := by
  induction bs with
  | nil => rfl
  | cons b bs ih =>
    rw [List.mem_cons, not_or] at h
    rw [List.cons_append, percentDecodeBytes_cons (Ne.symm h.1), ih h.2, List.cons_append]

/-- Decoding makes a text no longer. -/
lemma length_percentDecodeBytes_le (bs : List UInt8) :
    (percentDecodeBytes bs).length ≤ bs.length := by
  fun_induction percentDecodeBytes bs <;> simp only [List.length_cons, List.length_nil] at * <;> omega

/-- The escape of a byte is decoded to it. -/
lemma percentDecodeBytes_percentByte (b : UInt8) (rest : List UInt8) :
    percentDecodeBytes (utf8 (percentByte b) ++ rest) = b :: percentDecodeBytes rest := by
  have hdigit : ∀ n < 16, ∃ d, String.utf8EncodeChar (upperHexDigit n) = [d] ∧
      hexValue? d = some (UInt8.ofNat n) := by
    intro n hn
    refine ⟨(String.utf8EncodeChar (upperHexDigit n)).headD 0, ?_⟩
    revert n
    decide
  have hlt := b.toNat_lt
  obtain ⟨h, hh, hx⟩ := hdigit (b.toNat / 16) (by omega)
  obtain ⟨l, hl, hy⟩ := hdigit (b.toNat % 16) (by omega)
  have hbytes : utf8 (percentByte b) ++ rest = 0x25 :: h :: l :: rest := by
    rw [percentByte, utf8_cons, utf8_cons, utf8_cons, hh, hl]
    rfl
  have hvalue : 16 * UInt8.ofNat (b.toNat / 16) + UInt8.ofNat (b.toNat % 16) = b := by
    refine UInt8.toNat_inj.mp ?_
    simp only [UInt8.toNat_add, UInt8.toNat_mul, UInt8.toNat_ofNat', UInt8.reduceToNat]
    omega
  have hlead : leadingByte? (h :: l :: rest) = some (b, rest) := by
    simp [leadingByte?, leadingDigit?, hx, hy, hvalue]
  rw [hbytes, percentDecodeBytes_percent, hlead]

/-- Encoded bytes are decoded to themselves. -/
lemma percentDecodeBytes_percentBytes (bs rest : List UInt8) :
    percentDecodeBytes (utf8 (bs.flatMap percentByte) ++ rest) = bs ++ percentDecodeBytes rest := by
  induction bs with
  | nil => rfl
  | cons b bs ih =>
    rw [List.flatMap_cons, utf8_append, List.append_assoc, percentDecodeBytes_percentByte, ih,
      List.cons_append]

/-! ### Encoded texts -/

section Encoding

variable {mustEncode : Char → Bool}

/-- Characters are encoded one by one. -/
lemma percentEncode_cons (c : Char) (cs : List Char) :
    percentEncode mustEncode (c :: cs) =
      percentEncodeChar mustEncode c ++ percentEncode mustEncode cs :=
  List.flatMap_cons

/-- A character that is kept stands for itself. -/
lemma percentEncodeChar_of_false {c : Char} (h : mustEncode c = false) :
    percentEncodeChar mustEncode c = [c] := by
  rw [percentEncodeChar, h]
  rfl

/-- A text in which nothing has to be encoded stays as it is. -/
lemma percentEncode_eq_self {cs : List Char} (h : ∀ c ∈ cs, mustEncode c = false) :
    percentEncode mustEncode cs = cs := by
  induction cs with
  | nil => rfl
  | cons c cs ih =>
    rw [List.forall_mem_cons] at h
    rw [percentEncode_cons, percentEncodeChar_of_false h.1, ih h.2, List.singleton_append]

/-- The bytes of a character other than the percent sign are decoded to themselves. -/
lemma percentDecodeBytes_char {c : Char} (hc : c ≠ '%') (rest : List UInt8) :
    percentDecodeBytes (String.utf8EncodeChar c ++ rest) =
      String.utf8EncodeChar c ++ percentDecodeBytes rest := by
  refine percentDecodeBytes_append (fun hmem => ?_) rest
  obtain ⟨hlt, hbytes⟩ | hge := utf8EncodeChar_cases c
  · have hne : ∀ c : Char, c.toNat < 0x80 → c ≠ '%' → (0x25 : UInt8) ≠ UInt8.ofNat c.toNat :=
      forall_ascii (by decide)
    rw [hbytes, List.mem_singleton] at hmem
    exact hne c hlt hc hmem
  · exact absurd (hge _ hmem) (by decide)

/-- A character that is not a percent sign comes back, encoded or not. -/
lemma percentDecodeBytes_percentEncodeChar {c : Char} (hc : c ≠ '%') (rest : List UInt8) :
    percentDecodeBytes (utf8 (percentEncodeChar mustEncode c) ++ rest) =
      String.utf8EncodeChar c ++ percentDecodeBytes rest := by
  unfold percentEncodeChar
  split
  · rw [percentDecodeBytes_percentBytes, toList_toUTF8]
    simp
  · rw [utf8_cons, utf8_nil, List.append_nil, percentDecodeBytes_char hc]

/-- The bytes of a character begin with a hexadecimal digit only if it is one. -/
lemma exists_utf8EncodeChar_eq_cons (c : Char) :
    ∃ b bs, String.utf8EncodeChar c = b :: bs ∧
      ∀ x, hexValue? b = some x → bs = [] ∧ c.isAlphanum := by
  obtain ⟨hlt, hbytes⟩ | hge := utf8EncodeChar_cases c
  · have hword : ∀ c : Char, c.toNat < 0x80 → (hexValue? (UInt8.ofNat c.toNat)).isSome →
        c.isAlphanum := forall_ascii (by decide)
    exact ⟨_, [], hbytes, fun x hx => ⟨rfl, hword c hlt (Option.isSome_of_eq_some hx)⟩⟩
  · obtain ⟨b, bs, hbytes⟩ := List.exists_cons_of_ne_nil (String.utf8EncodeChar_ne_nil (c := c))
    have hb : 0x80 ≤ b.toNat := hge b (by rw [hbytes]; exact List.mem_cons_self)
    refine ⟨b, bs, hbytes, fun x hx => absurd hx ?_⟩
    have hnone : hexValue? b = none := by
      have hgt : ∀ d : UInt8, d.toNat < 0x80 → ¬b ≤ d := fun d hd hle =>
        absurd (UInt8.le_iff_toNat_le.mp hle) (by omega)
      simp [hexValue?, hgt]
    rw [hnone]
    exact nofun

/-- Whether a text has a hexadecimal digit in front does not depend on whether it is encoded. -/
lemma leadingDigit?_cases (hword : ∀ c : Char, c.isAlphanum → mustEncode c = false)
    (cs : List Char) :
    (∃ x rest, rest.length < cs.length ∧ leadingDigit? (utf8 cs) = some (x, utf8 rest) ∧
      leadingDigit? (utf8 (percentEncode mustEncode cs)) =
        some (x, utf8 (percentEncode mustEncode rest))) ∨
    leadingDigit? (utf8 cs) = none ∧ leadingDigit? (utf8 (percentEncode mustEncode cs)) = none := by
  cases cs with
  | nil => exact .inr ⟨rfl, rfl⟩
  | cons c rest =>
    rw [percentEncode_cons, utf8_append, utf8_cons]
    obtain ⟨b, bs, hbytes, hdigit⟩ := exists_utf8EncodeChar_eq_cons c
    cases hx : hexValue? b with
    | some x =>
      obtain ⟨rfl, halnum⟩ := hdigit x hx
      refine .inl ⟨x, rest, Nat.lt_succ_self _, ?_, ?_⟩
      · simp [hbytes, leadingDigit?, hx]
      · simp [percentEncodeChar_of_false (hword c halnum), hbytes, leadingDigit?, hx]
    | none =>
      refine .inr ⟨by simp [hbytes, leadingDigit?, hx], ?_⟩
      unfold percentEncodeChar
      split
      · -- An encoded character begins with a percent sign.
        rw [toList_toUTF8, String.toList_singleton, utf8_cons, hbytes]
        rfl
      · simp [hbytes, leadingDigit?, hx]

/-- Encoding does not change what bytes a text stands for: escapes of characters that are encoded are
decoded again, and two hexadecimal digits behind a percent sign stay as they are. -/
lemma percentDecodeBytes_percentEncode (hpercent : mustEncode '%' = false)
    (hword : ∀ c : Char, c.isAlphanum → mustEncode c = false) (cs : List Char) :
    percentDecodeBytes (utf8 (percentEncode mustEncode cs)) = percentDecodeBytes (utf8 cs) := by
  match cs with
  | [] => rfl
  | c :: rest =>
    have ih := percentDecodeBytes_percentEncode hpercent hword rest
    rw [percentEncode_cons, utf8_append, utf8_cons]
    by_cases hc : c = '%'
    · -- A percent sign is kept, and what it means depends on the two characters behind it.
      subst hc
      change percentDecodeBytes (utf8 (percentEncodeChar mustEncode '%') ++ _) =
        percentDecodeBytes (0x25 :: utf8 rest)
      rw [percentEncodeChar_of_false hpercent]
      change percentDecodeBytes (0x25 :: utf8 (percentEncode mustEncode rest)) = _
      rw [percentDecodeBytes_percent, percentDecodeBytes_percent, ih]
      obtain ⟨x, rest₁, hlen₁, hx, hx'⟩ | ⟨hx, hx'⟩ := leadingDigit?_cases hword rest
      · obtain ⟨y, rest₂, hlen₂, hy, hy'⟩ | ⟨hy, hy'⟩ := leadingDigit?_cases hword rest₁
        · have ih₂ := percentDecodeBytes_percentEncode hpercent hword rest₂
          simp [leadingByte?, hx, hx', hy, hy', ih₂]
        · simp [leadingByte?, hx, hx', hy, hy']
      · simp [leadingByte?, hx, hx']
    · rw [percentDecodeBytes_percentEncodeChar hc, percentDecodeBytes_char hc, ih]
termination_by cs.length
decreasing_by all_goals simp only [List.length_cons]; omega

end Encoding

/-- Encoding does not change what a text stands for. -/
theorem percentDecode?_percentEncode {mustEncode : Char → Bool} (hpercent : mustEncode '%' = false)
    (hword : ∀ c : Char, c.isAlphanum → mustEncode c = false) (cs : List Char) :
    percentDecode? (String.ofList (percentEncode mustEncode cs)) =
      percentDecode? (String.ofList cs) := by
  unfold percentDecode?
  rw [toList_toUTF8, toList_toUTF8, String.toList_ofList, String.toList_ofList,
    percentDecodeBytes_percentEncode hpercent hword]

/-- A text without percent signs stands for itself. -/
theorem percentDecode?_eq_self {s : String} (h : '%' ∉ s.toList) : percentDecode? s = some s := by
  have hbytes : ∀ cs : List Char, '%' ∉ cs → percentDecodeBytes (utf8 cs) = utf8 cs := by
    intro cs hcs
    induction cs with
    | nil => rfl
    | cons c cs ih =>
      rw [List.mem_cons, not_or] at hcs
      rw [utf8_cons, percentDecodeBytes_char (Ne.symm hcs.1), ih hcs.2]
  have hself : ByteArray.mk (percentDecodeBytes s.toUTF8.toList).toArray = s.toUTF8 := by
    rw [toList_toUTF8, hbytes _ h, ← toList_toUTF8, byteArray_toList]
  rw [percentDecode?, hself]
  exact dif_pos s.isValidUTF8

/-- What a text stands for is not longer than the text. -/
theorem length_utf8_of_percentDecode? {s t : String} (h : percentDecode? s = some t) :
    (utf8 t.toList).length ≤ (utf8 s.toList).length := by
  unfold percentDecode? String.fromUTF8? at h
  split at h
  next hvalid =>
    cases h
    have hbytes : utf8 (String.fromUTF8 _ hvalid).toList = percentDecodeBytes s.toUTF8.toList := by
      rw [← toList_toUTF8, byteArray_toList]
      rfl
    rw [hbytes, toList_toUTF8]
    exact length_percentDecodeBytes_le _
  next => exact nomatch h

/-- A part of a text that is as long as the text is the text. -/
lemma eq_of_sublist_of_length_utf8_le {cs ds : List Char} (h : ds.Sublist cs)
    (hlen : (utf8 cs).length ≤ (utf8 ds).length) : ds = cs := by
  induction h with
  | slnil => rfl
  | @cons ds cs c h ih =>
    have hle : (utf8 ds).length ≤ (utf8 cs).length := (h.flatMap _).length_le
    have hpos : 0 < (String.utf8EncodeChar c).length :=
      List.length_pos_iff.mpr String.utf8EncodeChar_ne_nil
    rw [utf8_cons, List.length_append] at hlen
    omega
  | cons_cons c h ih =>
    rw [utf8_cons, utf8_cons, List.length_append, List.length_append] at hlen
    rw [ih (by omega)]

end DialogueSync.Text
