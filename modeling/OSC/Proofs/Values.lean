import OSC.Proofs.Translation

namespace OSC

theorem length_paddedText (bytes : Bytes) : (paddedText bytes).length = paddedLength bytes.length := by
  have padded := lt_paddedLength bytes.length
  simp only [paddedText, Bytes.zeros, List.length_append, List.length_replicate]
  omega

theorem length_paddedText_mod (bytes : Bytes) : (paddedText bytes).length % 4 = 0 := by
  rw [length_paddedText]
  exact align4_mod _

theorem length_paddedBlob (bytes : Bytes) : (paddedBlob bytes).length = 4 + align4 bytes.length := by
  have padded := le_align4 bytes.length
  simp only [paddedBlob, Bytes.zeros, List.length_append, Bytes.length_ofNat, List.length_replicate]
  omega

/-- Padding begins with the terminator. -/
theorem paddedText_terminated (bytes : Bytes) : ∃ padding, paddedText bytes = bytes ++ 0 :: padding := by
  have padded := lt_paddedLength bytes.length
  obtain ⟨n, size⟩ : ∃ n, paddedLength bytes.length - bytes.length = n + 1 :=
    ⟨paddedLength bytes.length - bytes.length - 1, by omega⟩
  exact ⟨Bytes.zeros n, by rw [paddedText, size]; rfl⟩

theorem nulAt_paddedText {text : Bytes} (noZero : 0 ∉ text) (rest : Bytes) :
    (paddedText text ++ rest).nulAt? 0 = some text.length := by
  obtain ⟨padding, padded⟩ := paddedText_terminated text
  rw [padded, List.append_assoc, List.cons_append, Bytes.nulAt_text noZero]

/-- The length field of a blob has no more than 32 bits. -/
theorem word_paddedBlob (content rest : Bytes) :
    (paddedBlob content ++ rest).word? 0 4 = some (content.length % 2 ^ 32) := by
  have front := Bytes.word_front (Bytes.ofNat 4 content.length)
    (content ++ (Bytes.zeros (align4 content.length - content.length) ++ rest))
  rw [Bytes.length_ofNat, Bytes.toNat_ofNat] at front
  simpa only [paddedBlob, List.append_assoc] using front

theorem slice_paddedBlob {content : Bytes} {n : Nat} (within : n ≤ content.length) (rest : Bytes) :
    (paddedBlob content ++ rest).slice? 4 n = some (content.take n) := by
  have padded := le_align4 content.length
  have behind : (paddedBlob content ++ rest).drop 4 =
      content ++ (Bytes.zeros (align4 content.length - content.length) ++ rest) := by
    simp only [paddedBlob, List.append_assoc]
    exact List.drop_left' (Bytes.length_ofNat 4 _)
  rw [Bytes.slice?, behind, List.take_append_of_le_length within, if_pos]
  rw [List.length_append, length_paddedBlob]
  omega

theorem TimeTag.toNat_lt (t : TimeTag) : t.toNat < 2 ^ 64 := by
  have seconds := t.seconds.toNat_lt
  have fraction := t.fraction.toNat_lt
  unfold toNat
  omega

theorem TimeTag.ofNat_toNat (t : TimeTag) : ofNat t.toNat = t := by
  have fraction := t.fraction.toNat_lt
  have seconds : (t.seconds.toNat * 2 ^ 32 + t.fraction.toNat) / 2 ^ 32 = t.seconds.toNat := by omega
  unfold ofNat toNat
  rw [seconds]
  congr 1
  · exact UInt32.ofNat_toNat
  · apply UInt32.toNat_inj.mp
    simp

namespace Arguments

theorem int32OfNat_toNat (n : Int32) : int32OfNat n.toUInt32.toNat = n := by
  simp [int32OfNat]

theorem int64OfNat_toNat (n : Int64) : int64OfNat n.toUInt64.toNat = n := by
  simp [int64OfNat]

theorem charOfCode_asciiCode {c : Char} (ascii : c.toNat < 0x80) :
    charOfCode (Argument.asciiCode c) = c := by
  have valid : c.toNat.isValidChar := c.valid
  rw [Argument.asciiCode, if_pos ascii, charOfCode, if_pos valid, Char.ofNat_toNat]

theorem word_front (piece rest : Bytes) : word (piece ++ rest) 0 piece.length = .ok (Bytes.toNat piece) := by
  rw [word, Bytes.word_front]

theorem word_number {width n : Nat} (fits : n < 256 ^ width) (rest : Bytes) :
    word (Bytes.ofNat width n ++ rest) 0 width = .ok n := by
  have front := word_front (Bytes.ofNat width n) rest
  rwa [Bytes.length_ofNat, Bytes.toNat_ofNat, Nat.mod_eq_of_lt fits] at front

theorem textAt_paddedText {text : Bytes} (noZero : 0 ∉ text) (rest : Bytes) :
    textAt (paddedText text ++ rest) 0 = .ok text := by
  have content : (paddedText text ++ rest).take text.length = text := by
    rw [paddedText, List.append_assoc, List.take_left]
  simp only [textAt, nulAt_paddedText noZero, List.drop_zero, content, Nat.not_lt_zero, if_false]

/-- Of a blob as many bytes are read as the length field tells. -/
theorem blobAt_paddedBlob (content rest : Bytes) :
    blobAt (paddedBlob content ++ rest) 0 = .ok (content.take (content.length % 2 ^ 32)) := by
  rw [blobAt, word, word_paddedBlob]
  simp only [bind, Except.bind, Nat.zero_add, slice_paddedBlob (Nat.mod_le ..)]

end Arguments

/-- Whether a value can be sent under a tag and read back: texts hold no zero, the length of a blob fits
its field, and characters are ASCII. -/
def Argument.Fits (a : Argument) (tag : Tag) : Prop :=
  match a with
  | string bytes => (tag = .string ∨ tag = .symbol) ∧ 0 ∉ bytes
  | blob content => tag = .blob ∧ content.length < 2 ^ 32
  | char c => tag = .char ∧ c.toNat < 0x80
  | other => tag = other.tag

namespace Argument

variable {a : Argument} {tag : Tag}

/-- A value is read back from its bytes, whatever follows them. -/
theorem decodeAt_encode (fits : a.Fits tag) (rest : Bytes) :
    Arguments.decodeAt (a.encode ++ rest) 0 tag = .ok a := by
  cases a with
  | string text =>
    obtain ⟨rfl | rfl, noZero⟩ := fits <;>
      simp only [Arguments.decodeAt, encode, Arguments.textAt_paddedText noZero, Except.map]
  | blob content =>
    obtain ⟨rfl, size⟩ := fits
    rw [encode, Arguments.decodeAt, Arguments.blobAt_paddedBlob, Nat.mod_eq_of_lt size, List.take_length]
    rfl
  | char c =>
    obtain ⟨rfl, ascii⟩ := fits
    have code : asciiCode c < 256 ^ 4 := by rw [asciiCode, if_pos ascii]; omega
    simp only [Arguments.decodeAt, encode, Arguments.word_number code, Except.map,
      Arguments.charOfCode_asciiCode ascii]
  | int32 n =>
    cases fits
    have size : n.toUInt32.toNat < 256 ^ 4 := n.toUInt32.toNat_lt
    have bits := Arguments.word_number size rest
    simp only [Arguments.decodeAt, Argument.tag, encode, bits, Except.map, Arguments.int32OfNat_toNat]
  | int64 n =>
    cases fits
    have size : n.toUInt64.toNat < 256 ^ 8 := n.toUInt64.toNat_lt
    have bits := Arguments.word_number size rest
    simp only [Arguments.decodeAt, Argument.tag, encode, bits, Except.map, Arguments.int64OfNat_toNat]
  | float32 x =>
    cases fits
    have size : x.bits.toNat < 256 ^ 4 := x.bits.toNat_lt
    have bits := Arguments.word_number size rest
    simp only [Arguments.decodeAt, Argument.tag, encode, Single.toNat, bits, Except.map, Single.ofNat,
      UInt32.ofNat_toNat]
  | float64 x =>
    cases fits
    have size : x.bits.toNat < 256 ^ 8 := x.bits.toNat_lt
    have bits := Arguments.word_number size rest
    simp only [Arguments.decodeAt, Argument.tag, encode, Double.toNat, bits, Except.map, Double.ofNat,
      UInt64.ofNat_toNat]
  | timeTag t =>
    cases fits
    have size : t.toNat < 256 ^ 8 := t.toNat_lt
    have bits := Arguments.word_number size rest
    simp only [Arguments.decodeAt, Argument.tag, encode, TimeTag.toBytes, bits, Except.map, TimeTag.ofNat_toNat]
  | midi m =>
    cases fits
    have word : Arguments.word (m.toBytes ++ rest) 0 4 = _ := Arguments.word_front m.toBytes rest
    simp only [Arguments.decodeAt, Argument.tag, encode, word, Except.map, Midi.ofNat_toBytes]
  | color c =>
    cases fits
    have word : Arguments.word (c.toBytes ++ rest) 0 4 = _ := Arguments.word_front c.toBytes rest
    simp only [Arguments.decodeAt, Argument.tag, encode, word, Except.map, Color.ofNat_toBytes]
  | bool _ | nil | infinitum | arrayOpen | arrayClose =>
    cases fits
    rfl

theorem span_encode (fits : a.Fits tag) (rest : Bytes) :
    tag.span (a.encode ++ rest) 0 = a.encode.length := by
  cases a with
  | string text =>
    obtain ⟨rfl | rfl, noZero⟩ := fits <;>
      simp only [Tag.span, textSpan, encode, nulAt_paddedText noZero, length_paddedText]
  | blob content =>
    obtain ⟨rfl, size⟩ := fits
    rw [encode, Tag.span, blobSpan, word_paddedBlob, Nat.mod_eq_of_lt size, length_paddedBlob, Option.getD_some]
  | char c =>
    obtain ⟨rfl, _⟩ := fits
    exact (Bytes.length_ofNat 4 _).symm
  | int32 _ | float32 _ =>
    cases fits
    exact (Bytes.length_ofNat 4 _).symm
  | int64 _ | float64 _ | timeTag _ =>
    cases fits
    exact (Bytes.length_ofNat 8 _).symm
  | midi _ | color _ | bool _ | nil | infinitum | arrayOpen | arrayClose =>
    cases fits
    rfl

end Argument

end OSC
