import OSC.Blob

namespace OSC

namespace Utf8

theorem encodeChar_ascii {c : Char} (ascii : c.toNat < 0x80) : encodeChar c = [UInt8.ofNat c.toNat] := by
  simp only [encodeChar, if_pos ascii, List.map_cons, List.map_nil]

theorem toNat_lt (c : Char) : c.toNat < 0x110000 := by
  have valid : c.toNat.isValidChar := c.valid
  unfold Nat.isValidChar at valid
  omega

/-- No byte of a character outside ASCII is ASCII. -/
theorem encodeChar_high {c : Char} (high : ¬ c.toNat < 0x80) : ∀ b ∈ encodeChar c, 0x80 ≤ b.toNat := by
  have bound := toNat_lt c
  unfold encodeChar
  rw [if_neg high]
  split
  · simp only [List.forall_mem_map, List.forall_mem_cons, UInt8.toNat_ofNat']
    exact ⟨by omega, by omega, List.forall_mem_nil _⟩
  · split
    · simp only [List.forall_mem_map, List.forall_mem_cons, UInt8.toNat_ofNat']
      exact ⟨by omega, by omega, by omega, List.forall_mem_nil _⟩
    · simp only [List.forall_mem_map, List.forall_mem_cons, UInt8.toNat_ofNat']
      exact ⟨by omega, by omega, by omega, by omega, List.forall_mem_nil _⟩

theorem length_encodeChar (c : Char) : (encodeChar c).length = c.utf8Size := by
  have code : c.val.toNat = c.toNat := rfl
  have sizes : c.utf8Size =
      if c.toNat < 0x80 then 1 else if c.toNat < 0x800 then 2 else if c.toNat < 0x10000 then 3 else 4 := by
    simp only [Char.utf8Size, UInt32.le_iff_toNat_le, code, ← Nat.lt_succ_iff]
    rfl
  simp only [sizes, encodeChar, apply_ite List.length, List.length_map, List.length_cons, List.length_nil]

theorem length_encode (text : List Char) : (encode text).length = (String.ofList text).utf8ByteSize := by
  induction text with
  | nil => rfl
  | cons c rest ih =>
    have split : String.ofList (c :: rest) = String.singleton c ++ String.ofList rest := by
      rw [String.singleton_eq_ofList, ← String.ofList_append, List.singleton_append]
    rw [split, String.utf8ByteSize_append, String.utf8ByteSize_singleton, ← ih, encode, List.flatMap_cons,
      List.length_append, length_encodeChar, encode]

theorem length_le_encode (text : List Char) : text.length ≤ (encode text).length := by
  induction text with
  | nil => exact Nat.le_refl _
  | cons c rest ih =>
    have first := c.utf8Size_pos
    rw [encode] at ih
    rw [encode, List.flatMap_cons, List.length_append, length_encodeChar, List.length_cons]
    omega

end Utf8

namespace Encoding

/-- The length told from a text is that of the bytes put out for it. -/
theorem length_encode (e : Encoding) (text : String) : (e.encode text).length = e.encodedLength text := by
  cases e with
  | ascii => rw [encode, encodeChars, List.length_map, String.length_toList, encodedLength]
  | utf8 => rw [encode, encodeChars, Utf8.length_encode, String.ofList_toList, encodedLength]

theorem encodedLength_le (e : Encoding) (text : String) : e.encodedLength text ≤ text.utf8ByteSize := by
  cases e with
  | ascii =>
    have shorter := Utf8.length_le_encode text.toList
    rwa [Utf8.length_encode, String.ofList_toList, String.length_toList] at shorter
  | utf8 => exact Nat.le_refl _

theorem asciiByte_ascii {c : Char} (ascii : c.toNat < 0x80) : asciiByte c = UInt8.ofNat c.toNat := by
  rw [asciiByte, isAscii, if_pos (decide_eq_true ascii)]

theorem ofNat_eq_zero {c : Char} (ascii : c.toNat < 0x80) (zero : UInt8.ofNat c.toNat = 0) : c = '\x00' := by
  have code := congrArg UInt8.toNat zero
  rw [UInt8.toNat_ofNat', UInt8.toNat_zero, Nat.mod_eq_of_lt (by omega)] at code
  rw [← Char.ofNat_toNat c, code]

theorem noZero_encode (e : Encoding) {text : String} (noNul : '\x00' ∉ text.toList) : 0 ∉ e.encode text := by
  intro member
  cases e with
  | ascii =>
    obtain ⟨c, inText, zero⟩ := List.mem_map.mp member
    by_cases ascii : c.toNat < 0x80
    · rw [asciiByte_ascii ascii] at zero
      exact noNul (ofNat_eq_zero ascii zero ▸ inText)
    · rw [asciiByte, isAscii, if_neg (by simpa using ascii)] at zero
      cases zero
  | utf8 =>
    obtain ⟨c, inText, inChar⟩ := List.mem_flatMap.mp member
    by_cases ascii : c.toNat < 0x80
    · rw [Utf8.encodeChar_ascii ascii] at inChar
      exact noNul (ofNat_eq_zero ascii (List.mem_singleton.mp inChar).symm ▸ inText)
    · have high := Utf8.encodeChar_high ascii 0 inChar
      cases high

theorem head_encode (e : Encoding) {text : String} {c : Char} (first : text.toList.head? = some c)
    (ascii : c.toNat < 0x80) : (e.encode text).head? = some (UInt8.ofNat c.toNat) := by
  obtain ⟨rest, chars⟩ := List.head?_eq_some_iff.mp first
  cases e with
  | ascii => rw [encode, chars, encodeChars, List.map_cons, List.head?_cons, asciiByte_ascii ascii]
  | utf8 =>
    rw [encode, chars, encodeChars, Utf8.encode, List.flatMap_cons, Utf8.encodeChar_ascii ascii,
      List.singleton_append, List.head?_cons]

end Encoding

end OSC
