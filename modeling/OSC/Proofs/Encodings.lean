import OSC.Conversion
import OSC.Proofs.Characters

namespace OSC

namespace Encoding

variable {e : Encoding} {bytes : Bytes} {text : String} {c : Char}

/-- The text in which one question mark stands for each character that ASCII lacks. -/
def questioned (text : String) : String := text.map fun c => if isAscii c then c else '?'

theorem isAscii_iff : isAscii c ↔ c.toNat < 0x80 := decide_eq_true_iff

/-- Strings are made of the bytes that they are encoded to. -/
theorem toByteArray_eq (text : String) : text.toByteArray.data.toList = utf8.encode text := by
  have chars : Utf8.encodeChar = String.utf8EncodeChar := funext Utf8.encodeChar_eq_utf8EncodeChar
  rw [← String.utf8Encode_toList, List.utf8Encode, List.data_toByteArray, List.toList_toArray, ← chars]
  rfl

theorem foldl_asciiByte (text : List Char) (out : Bytes) :
    text.foldl (fun out c => out ++ [asciiByte c]) out = out ++ text.map asciiByte := by
  induction text generalizing out with
  | nil => simp
  | cons c text ih => simp [ih]

theorem encodeInto_eq (e : Encoding) (text : String) (out : Bytes) :
    e.encodeInto text out = out ++ e.encode text := by
  cases e with
  | ascii => exact foldl_asciiByte text.toList out
  | utf8 => exact congrArg (out ++ ·) (toByteArray_eq text)

/-- Nothing but the bytes of the text in UTF-8 is decoded to it, and in ASCII only where all of them are ASCII. -/
theorem decode_eq_ok :
    e.decode bytes = .ok text ↔ utf8.encode text = bytes ∧ (e = ascii → ∀ b ∈ bytes, b < 0x80) := by
  unfold decode
  by_cases refused : e = ascii ∧ ¬ bytes.all (· < 0x80)
  · obtain ⟨rfl, high⟩ := refused
    rw [if_pos ⟨rfl, high⟩]
    refine ⟨nofun, fun ⟨_, low⟩ => absurd ?_ high⟩
    simpa using low rfl
  · have low : e = ascii → ∀ b ∈ bytes, b < 0x80 := by simpa using refused
    rw [if_neg refused]
    constructor
    · intro decoded
      cases read : Utf8.decode bytes with
      | error fault =>
        rw [read] at decoded
        cases decoded
      | ok chars =>
        rw [read] at decoded
        cases decoded
        refine ⟨?_, low⟩
        rw [encode, String.toList_ofList]
        exact Utf8.decode_eq_ok_iff.mp read
    · rintro ⟨encoded, _⟩
      rw [Utf8.decode_eq_ok_iff.mpr encoded]
      simp

theorem decode_utf8 : utf8.decode bytes = .ok text ↔ utf8.encode text = bytes := by
  simp [decode_eq_ok]

theorem decode_ascii : ascii.decode bytes = .ok text ↔ utf8.encode text = bytes ∧ ∀ b ∈ bytes, b < 0x80 := by
  simp [decode_eq_ok]

/-- A text of ASCII characters is the same bytes either way. -/
theorem encode_ascii (all : ∀ c ∈ text.toList, isAscii c) : utf8.encode text = ascii.encode text := by
  have single : ∀ c ∈ text.toList, Utf8.encodeChar c = [asciiByte c] := by
    intro c member
    have low := isAscii_iff.mp (all c member)
    rw [Utf8.encodeChar_ascii low, asciiByte_ascii low]
  show text.toList.flatMap Utf8.encodeChar = text.toList.map asciiByte
  rw [List.map_eq_flatMap, List.flatMap_def, List.flatMap_def, List.map_congr_left single]

theorem asciiByte_lt (c : Char) : asciiByte c < 0x80 := by
  unfold asciiByte
  split
  case isTrue ascii =>
    have low := isAscii_iff.mp ascii
    rw [UInt8.lt_iff_toNat_lt, UInt8.toNat_ofNat']
    exact Nat.lt_of_le_of_lt (Nat.mod_le ..) low
  case isFalse => decide

theorem isAscii_of_bytes (low : ∀ b ∈ utf8.encode text, b < 0x80) : ∀ c ∈ text.toList, isAscii c := by
  intro c member
  rw [isAscii_iff]
  obtain ⟨b, _, _, _, encoded⟩ := Utf8.lead_of_char c
  have first : b ∈ Utf8.encodeChar c := by simp [encoded]
  have below := UInt8.lt_iff_toNat_lt.mp (low b (List.mem_flatMap.mpr ⟨c, member, first⟩))
  refine Decidable.byContradiction fun high => ?_
  exact Nat.not_lt.mpr (Utf8.encodeChar_high high b first) below

theorem isAscii_of_questioned (text : String) : ∀ c ∈ (questioned text).toList, isAscii c := by
  intro c member
  rw [questioned, String.toList_map] at member
  obtain ⟨original, _, rfl⟩ := List.mem_map.mp member
  split
  case isTrue ascii => exact ascii
  case isFalse => rfl

/-- Putting the question marks first makes no difference. -/
theorem encode_questioned (text : String) : ascii.encode (questioned text) = ascii.encode text := by
  show (questioned text).toList.map asciiByte = text.toList.map asciiByte
  rw [questioned, String.toList_map, List.map_map]
  refine List.map_congr_left fun c _ => ?_
  show asciiByte (if isAscii c then c else '?') = asciiByte c
  by_cases ascii : isAscii c
  · rw [if_pos ascii]
  · rw [if_neg ascii, asciiByte, if_pos (by decide), asciiByte, if_neg ascii]

theorem decode_encode_utf8 (text : String) : utf8.decode (utf8.encode text) = .ok text := decode_utf8.mpr rfl

theorem decode_encode_ascii (text : String) : ascii.decode (ascii.encode text) = .ok (questioned text) := by
  rw [decode_ascii, encode_ascii (isAscii_of_questioned text), encode_questioned]
  refine ⟨rfl, fun b member => ?_⟩
  obtain ⟨c, _, rfl⟩ := List.mem_map.mp member
  exact asciiByte_lt c

theorem encode_of_decode (decoded : e.decode bytes = .ok text) : e.encode text = bytes := by
  obtain ⟨encoded, low⟩ := decode_eq_ok.mp decoded
  cases e with
  | ascii =>
    subst encoded
    exact (encode_ascii (isAscii_of_bytes (low rfl))).symm
  | utf8 => exact encoded

/-- A text that bytes are decoded to is also what they are shown as. -/
theorem shown_of_decode (decoded : e.decode bytes = .ok text) : shown bytes = text := by
  obtain ⟨rfl, _⟩ := decode_eq_ok.mp decoded
  have taken : Utf8.decodeLossy (utf8.encode text) = text.toList := Utf8.decodeLossy_of_lossy (Utf8.lossy_encode _)
  rw [shown, taken, String.ofList_toList]

theorem exists_text_of_ascii (low : ∀ b ∈ bytes, b < 0x80) : ∃ text, utf8.encode text = bytes := by
  refine ⟨String.ofList (bytes.map fun b => Char.ofNat b.toNat), ?_⟩
  have single : ∀ b ∈ bytes, Utf8.encodeChar (Char.ofNat b.toNat) = [b] := by
    intro b member
    have below := UInt8.lt_iff_toNat_lt.mp (low b member)
    have code : (Char.ofNat b.toNat).toNat = b.toNat := Utf8.toNat_ofNat (Or.inl (Nat.lt_trans below (by decide)))
    rw [Utf8.encodeChar_ascii (by rwa [code]), code, UInt8.ofNat_toNat]
  rw [encode, String.toList_ofList, encodeChars, Utf8.encode, List.flatMap_map, List.flatMap_def,
    List.map_congr_left single, ← List.flatMap_def, List.flatMap_singleton']

theorem decode_ascii_iff : (∃ text, ascii.decode bytes = .ok text) ↔ ∀ b ∈ bytes, b < 0x80 := by
  constructor
  · rintro ⟨text, decoded⟩
    exact (decode_ascii.mp decoded).2
  · intro low
    obtain ⟨text, encoded⟩ := exists_text_of_ascii low
    exact ⟨text, decode_ascii.mpr ⟨encoded, low⟩⟩

theorem decode_same (low : ∀ b ∈ bytes, b < 0x80) : utf8.decode bytes = ascii.decode bytes := by
  obtain ⟨text, encoded⟩ := exists_text_of_ascii low
  rw [decode_utf8.mpr encoded, decode_ascii.mpr ⟨encoded, low⟩]

/-- What becomes of a text that is encoded and decoded again. -/
structure Encoded (text : String) : Prop where
  appended : ∀ (e : Encoding) (out : Bytes), e.encodeInto text out = out ++ e.encode text
  length : ∀ e : Encoding, (e.encode text).length = e.encodedLength text
  backFromUtf8 : utf8.decode (utf8.encode text) = .ok text
  backFromAscii : ascii.decode (ascii.encode text) = .ok (questioned text)

/-- What bytes are decoded to, if to anything. -/
structure Decoded (bytes : Bytes) : Prop where
  encoded : ∀ (e : Encoding) (text : String), e.decode bytes = .ok text → e.encode text = bytes
  /-- The text is also what the bytes are shown as, and what they are read as in a message. -/
  read : ∀ (e : Encoding) (text : String), e.decode bytes = .ok text →
    shown bytes = text ∧
      ∀ (a : Arguments) (index : Nat), a.get index = .ok (.string bytes) → a.read .text index = .ok text
  asciiAlone : (∃ text, ascii.decode bytes = .ok text) ↔ ∀ b ∈ bytes, b < 0x80
  same : (∀ b ∈ bytes, b < 0x80) → utf8.decode bytes = ascii.decode bytes
  /-- The strings that are made of the bytes are those that they are decoded to. -/
  strict : ∀ text : String, utf8.decode bytes = .ok text ↔ text.toByteArray.data.toList = bytes
  lossy : ∀ text : List Char, Utf8.decodeLossy bytes = text ↔ Utf8.Lossy bytes text

theorem encoded (text : String) : Encoded text where
  appended := fun e out => encodeInto_eq e text out
  length := fun e => length_encode e text
  backFromUtf8 := decode_encode_utf8 text
  backFromAscii := decode_encode_ascii text

theorem read_of_decode {a : Arguments} {index : Nat} (decoded : e.decode bytes = .ok text)
    (found : a.get index = .ok (.string bytes)) : a.read .text index = .ok text := by
  have same : String.ofList (Utf8.decodeLossy bytes) = text := shown_of_decode decoded
  simp only [Arguments.read, found, bind, Except.bind, Conversion.text, same]

theorem decoded (bytes : Bytes) : Decoded bytes where
  encoded := fun _ _ => encode_of_decode
  read := fun _ _ decoded => ⟨shown_of_decode decoded, fun _ _ => read_of_decode decoded⟩
  asciiAlone := decode_ascii_iff
  same := decode_same
  strict := fun text => by rw [decode_utf8, toByteArray_eq]
  lossy := fun _ => Utf8.decodeLossy_eq_iff

/-- Every text is decoded from what it is encoded to, and bytes are decoded only to the text whose bytes they are. -/
theorem decode_agrees : (∀ text, Encoded text) ∧ ∀ bytes, Decoded bytes := ⟨encoded, decoded⟩

/-- Characters of one, two, three and four bytes. -/
def mixed : String := "aé€😀"

/-- The longer forms of a short character and a surrogate are no characters in any part, and three bytes could have been
completed. -/
def illformed : Bytes := [0xC0, 0x80, 0xED, 0xA0, 0x80, 0xF0, 0x9F, 0x98, 0x61]

def accented : Arguments :=
  ⟨[0x61, 0xC3, 0xA9, 0], ⟨[.string], 0 :: List.replicate 31 0, by decide, by decide⟩⟩

theorem decode_agrees_mixed :
    mixed.toByteArray.data.toList = [0x61, 0xC3, 0xA9, 0xE2, 0x82, 0xAC, 0xF0, 0x9F, 0x98, 0x80] ∧
      utf8.decode [0x61, 0xC3, 0xA9, 0xE2, 0x82, 0xAC, 0xF0, 0x9F, 0x98, 0x80] = .ok mixed ∧
      utf8.encodeInto mixed [47] = [47, 0x61, 0xC3, 0xA9, 0xE2, 0x82, 0xAC, 0xF0, 0x9F, 0x98, 0x80] ∧
      ascii.encodeInto mixed [47] = [47, 0x61, 0x3F, 0x3F, 0x3F] ∧ ascii.decode [0x61, 0x3F, 0x3F, 0x3F] = .ok "a???" ∧
      utf8.decode [0x61, 0x3F, 0x3F, 0x3F] = .ok "a???" ∧
      accented.get 0 = .ok (.string [0x61, 0xC3, 0xA9]) ∧ utf8.decode [0x61, 0xC3, 0xA9] = .ok "aé" ∧
      accented.read .text 0 = .ok "aé" ∧ (¬ ∃ text, ascii.decode [0x61, 0xC3, 0xA9] = .ok text) ∧
      Utf8.Lossy illformed (List.replicate 6 '\uFFFD' ++ ['a']) ∧ ∀ text, utf8.decode illformed ≠ .ok text := by
  obtain ⟨ofText, ofBytes⟩ := decode_agrees
  have bytes : mixed.toByteArray.data.toList = [0x61, 0xC3, 0xA9, 0xE2, 0x82, 0xAC, 0xF0, 0x9F, 0x98, 0x80] := by decide
  have marks : questioned mixed = "a???" := by
    rw [← String.toList_inj, questioned, String.toList_map]
    decide
  have questions : ascii.decode [0x61, 0x3F, 0x3F, 0x3F] = .ok "a???" := marks ▸ (ofText mixed).backFromAscii
  have accent : utf8.decode [0x61, 0xC3, 0xA9] = .ok "aé" := (ofText "aé").backFromUtf8
  have taken : Utf8.decodeLossy illformed = List.replicate 6 '\uFFFD' ++ ['a'] := by
    simp [Utf8.decodeLossy, Utf8.pieces, Utf8.piece, Utf8.tail, Utf8.Piece.size, Utf8.Piece.lossy, illformed]
  refine ⟨bytes, ((ofBytes _).strict mixed).mpr bytes, (ofText mixed).appended utf8 [47],
    (ofText mixed).appended ascii [47], questions, ((ofBytes _).same (by simp)).trans questions, rfl, accent, ?_, ?_,
    ((ofBytes illformed).lossy _).mp taken, ?_⟩
  · exact ((ofBytes _).read utf8 "aé" accent).2 accented 0 rfl
  · rw [(ofBytes _).asciiAlone]
    simp
  · intro text decoded
    obtain ⟨same, _⟩ := (ofBytes illformed).read utf8 text decoded
    rw [shown, taken] at same
    have again := (ofBytes illformed).encoded utf8 text decoded
    rw [← same] at again
    revert again
    decide

end Encoding

end OSC
