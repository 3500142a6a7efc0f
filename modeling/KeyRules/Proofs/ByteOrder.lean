/-!
# KeyRules — the order of names

Names are compared character by character, as sequences of code points. Written as bytes in UTF-8
and compared byte by byte they come in the same order: a longer encoding starts with a greater byte,
and two encodings of one length are the digits of the code points, the leading one first.

* `Text.bytes` — a text as bytes.
* `Text.bytes_lt_iff` — both orders are one.
* `Text.Increasing` — names in this order, each once.
-/

namespace KeyRules.Text

open String (utf8EncodeChar)

/-- The bytes of a text in UTF-8. -/
def bytes (text : String) : List UInt8 :=
  text.toUTF8.data.toList

/-- The bytes of a text are those of its characters, one after the other. -/
theorem bytes_eq_flatMap (text : String) : bytes text = text.toList.flatMap utf8EncodeChar := by
  have hencode : text.toUTF8 = text.toList.utf8Encode := by
    rw [← String.toByteArray_ofList, String.ofList_toList]
    rfl
  rw [bytes, hencode, List.utf8Encode, List.data_toByteArray]

/-- The order of bytes below 256 is the order of their numbers. -/
theorem ofNat_cons_lt_iff {m n : Nat} (hm : m < 256) (hn : n < 256) {bs cs : List UInt8} :
    UInt8.ofNat m :: bs < UInt8.ofNat n :: cs ↔ m < n ∨ m = n ∧ bs < cs := by
  rw [List.cons_lt_cons_iff, UInt8.lt_iff_toNat_lt, ← UInt8.toNat_inj]
  simp only [UInt8.toNat_ofNat']
  rw [Nat.mod_eq_of_lt hm, Nat.mod_eq_of_lt hn]

theorem codePoint_lt (c : Char) : c.val.toNat < 0x110000 := by
  have h : c.val.toNat < 0xD800 ∨ 0xDFFF < c.val.toNat ∧ c.val.toNat < 0x110000 := c.valid
  omega

/-- The first byte in which two characters differ decides, whatever follows them. -/
theorem utf8EncodeChar_append_lt {c d : Char} (h : c < d) (bs cs : List UInt8) :
    utf8EncodeChar c ++ bs < utf8EncodeChar d ++ cs := by
  have hlt : c.val.toNat < d.val.toNat := h
  have hbound := codePoint_lt d
  simp only [utf8EncodeChar]
  generalize c.val.toNat = m at hlt ⊢
  generalize d.val.toNat = n at hlt hbound ⊢
  -- in terms of each other the quotients are digits to the base 64
  have hsecond (k : Nat) : k / 4096 = k / 64 / 64 := by omega
  have hthird (k : Nat) : k / 262144 = k / 64 / 64 / 64 := by omega
  have hlength (k : Nat) :
      k ≤ 127 ∨ (127 < k ∧ k ≤ 2047) ∨ (2047 < k ∧ k ≤ 65535) ∨ 65535 < k := by omega
  -- one case for each pair of lengths; the lesser character is never the longer one
  rcases hlength m with hm | hm | hm | hm <;> rcases hlength n with hn | hn | hn | hn
  all_goals
    simp (disch := omega) only [if_pos, if_neg, List.cons_append, ofNat_cons_lt_iff, hsecond,
      hthird]
    omega

/-- The encoding keeps the order of texts: the first character in which they differ decides, and a
text that goes on comes later. -/
theorem flatMap_utf8EncodeChar_lt {cs ds : List Char} (h : cs < ds) :
    cs.flatMap utf8EncodeChar < ds.flatMap utf8EncodeChar := by
  induction h with
  | @nil d ds =>
    -- no character is without bytes, so a longer text has more of them
    obtain ⟨b, bs, hd⟩ := List.exists_cons_of_ne_nil (String.utf8EncodeChar_ne_nil (c := d))
    rw [List.flatMap_nil, List.flatMap_cons, hd]
    exact List.Lex.nil
  | rel hlt =>
    rw [List.flatMap_cons, List.flatMap_cons]
    exact utf8EncodeChar_append_lt hlt _ _
  | cons _ ih =>
    rw [List.flatMap_cons, List.flatMap_cons]
    exact List.append_left_lt ih

/-- Byte by byte, texts come in the order of their characters. -/
theorem bytes_lt_iff {a b : String} : bytes a < bytes b ↔ a < b := by
  have hmono {a b : String} (h : a < b) : bytes a < bytes b := by
    rw [bytes_eq_flatMap, bytes_eq_flatMap]
    exact flatMap_utf8EncodeChar_lt h
  refine ⟨fun h => ?_, hmono⟩
  by_cases hlt : a < b
  · exact hlt
  · -- otherwise they are equal or in the opposite order, and so are their bytes
    have hge : ¬ b < a := fun hgt => List.lt_asymm (hmono hgt) h
    obtain rfl : a = b := String.le_antisymm (String.not_lt.mp hge) (String.not_lt.mp hlt)
    exact absurd h (List.lt_irrefl _)

/-- Names in the order of their bytes, each at most once. -/
def Increasing (names : List String) : Prop :=
  names.Pairwise fun a b => bytes a < bytes b

/-- The order in which a table holds names is the order of their bytes. -/
theorem increasing_of_compare {names : List String}
    (h : names.Pairwise fun a b => compare a b = .lt) : Increasing names :=
  List.Pairwise.imp (fun hlt => bytes_lt_iff.mpr (compareOfLessAndEq_eq_lt.mp hlt)) h

end KeyRules.Text
