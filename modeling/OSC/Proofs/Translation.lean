import OSC.Proofs.Views

namespace OSC

/-- The error where `ahead` more bytes stand in front. Only a truncation tells a place. -/
def Error.moved (ahead : Nat) : Error → Error
  | truncated offset needed => truncated (ahead + offset) needed
  | e => e

theorem map_mapError {α β ε ε' : Type} (x : Except ε α) (f : α → β) (g : ε → ε') :
    (x.mapError g).map f = (x.map f).mapError g := by
  cases x <;> rfl

theorem bind_mapError {α β ε ε' : Type} {x : Except ε α} {f : α → Except ε β} {f' : α → Except ε' β}
    {g : ε → ε'} (each : ∀ a, f' a = (f a).mapError g) : x.mapError g >>= f' = (x >>= f).mapError g := by
  cases x with
  | error e => rfl
  | ok a => exact each a

namespace Arguments

variable {bytes : Bytes} {start : Nat}

theorem word_drop (within : start ≤ bytes.length) (offset width : Nat) :
    word bytes (start + offset) width =
      (word (bytes.drop start) offset width).mapError (Error.moved start) := by
  unfold word
  rw [Bytes.word_drop within]
  cases bytes.word? (start + offset) width <;> rfl

theorem textAt_drop (within : start ≤ bytes.length) (offset : Nat) :
    textAt bytes (start + offset) = (textAt (bytes.drop start) offset).mapError (Error.moved start) := by
  have past : (bytes.drop start).length < offset ↔ bytes.length < start + offset := by
    rw [List.length_drop]; omega
  have rest : (bytes.drop start).length - offset = bytes.length - (start + offset) := by
    rw [List.length_drop]; omega
  simp only [textAt, past, rest, Bytes.nulAt_drop, List.drop_drop]
  split
  · rfl
  · cases bytes.nulAt? (start + offset) <;> rfl

theorem blobAt_drop (within : start ≤ bytes.length) (offset : Nat) :
    blobAt bytes (start + offset) = (blobAt (bytes.drop start) offset).mapError (Error.moved start) := by
  unfold blobAt
  rw [word_drop within]
  refine bind_mapError fun size => ?_
  rw [Bytes.slice_drop within, Nat.add_assoc]
  cases bytes.slice? (start + (offset + 4)) size <;> rfl

/-- A value is decoded from the bytes at it and behind it. Those in front only count in the place that a
truncation tells. -/
theorem decodeAt_drop (within : start ≤ bytes.length) (offset : Nat) (tag : Tag) :
    decodeAt bytes (start + offset) tag =
      (decodeAt (bytes.drop start) offset tag).mapError (Error.moved start) := by
  cases tag with
  | bool _ | nil | infinitum | arrayOpen | arrayClose => rfl
  | string | symbol => simp only [decodeAt, textAt_drop within, map_mapError]
  | blob => simp only [decodeAt, blobAt_drop within, map_mapError]
  | _ => simp only [decodeAt, word_drop within, map_mapError]

end Arguments

section Layout

variable {bytes : Bytes} {start : Nat}

theorem Tag.span_drop (within : start ≤ bytes.length) (offset : Nat) (tag : Tag) :
    tag.span bytes (start + offset) = tag.span (bytes.drop start) offset := by
  have rest : (bytes.drop start).length - offset = bytes.length - (start + offset) := by
    rw [List.length_drop]; omega
  cases tag with
  | string | symbol => simp only [span, textSpan, Bytes.nulAt_drop, rest]
  | blob => simp only [span, blobSpan, Bytes.word_drop within]
  | _ => rfl

/-- More than the greatest size of a blob with its own size and padding, and than any fixed width. -/
def widest : Nat := 2 ^ 32 + 8

/-- A text ends soon after the bytes at the latest; whatever else ends further on is not wide. -/
theorem Tag.offset_add_span_le (bytes : Bytes) (offset : Nat) (tag : Tag) :
    offset + tag.span bytes offset ≤ max offset bytes.length + widest := by
  have text : offset + textSpan bytes offset ≤ max offset bytes.length + widest := by
    unfold textSpan widest
    split
    · rename_i n atNul
      have inside := Bytes.nulAt_lt atNul
      have padded := paddedLength_le n
      omega
    · omega
  cases tag with
  | string | symbol => exact text
  | blob =>
    have size : (bytes.word? offset 4).getD 0 < 2 ^ 32 := by
      cases atOffset : bytes.word? offset 4 with
      | none => decide
      | some n => exact Bytes.word_lt atOffset
    have padded := align4_lt ((bytes.word? offset 4).getD 0)
    simp only [span, blobSpan, widest]
    omega
  | _ =>
    simp only [span, width?, Option.getD_some, widest]
    omega

/-- Offsets are counted from any place in front of the message, as long as none grows too great to be
counted on. -/
theorem layout_drop (within : start ≤ bytes.length) (tags : List Tag) (offset last : Nat)
    (after : bytes.length ≤ last) (before : start + offset ≤ last)
    (room : last + tags.length * widest < 2 ^ 64) :
    layout bytes (start + offset) tags = (layout (bytes.drop start) offset tags).map (start + ·) := by
  induction tags generalizing offset last with
  | nil => rfl
  | cons tag rest ih =>
    have far := tag.offset_add_span_le bytes (start + offset)
    rw [Tag.span_drop within] at far
    rw [List.length_cons, Nat.succ_mul] at room
    have counted : offset + tag.span (bytes.drop start) offset < 2 ^ 64 := by omega
    have next : saturate (start + offset + tag.span (bytes.drop start) offset) =
        start + saturate (offset + tag.span (bytes.drop start) offset) := by
      unfold saturate
      omega
    have further := ih (saturate (offset + tag.span (bytes.drop start) offset)) (last + widest) (by omega)
      (by unfold saturate; omega) (by omega)
    simp only [layout, List.map_cons, Tag.span_drop within, next, further]

theorem Tag.listAt_drop (bytes : Bytes) (start place : Nat) :
    listAt (bytes.drop start) place = listAt bytes (start + place) := by
  simp only [listAt, List.getElem?_drop, List.drop_drop, Nat.add_assoc]

theorem Tag.stringLength_drop (bytes : Bytes) (start place : Nat) :
    stringLength (bytes.drop start) place = stringLength bytes (start + place) := by
  simp only [stringLength, List.getElem?_drop, List.drop_drop, Nat.add_assoc]

theorem Address.length_drop (bytes : Bytes) (start place : Nat) :
    length (bytes.drop start) place = length bytes (start + place) := by
  simp only [length, List.getElem?_drop, Bytes.nulAt_drop, Nat.add_assoc]

theorem Tag.length_run_le (bytes : Bytes) : (run bytes).length ≤ bytes.length := by
  induction bytes with
  | nil => exact Nat.le_refl 0
  | cons b rest ih =>
    unfold run
    split
    · simpa only [List.length_cons, Nat.succ_le_succ_iff] using ih
    · exact Nat.zero_le _

/-- The type tag string lies within the bytes, and its padding ends soon after them. -/
theorem Message.View.valuesStart_le {bytes : Bytes} {place : Nat} (within : place ≤ bytes.length + 4) :
    valuesStart bytes place ≤ bytes.length + 8 := by
  have padded := paddedLength_le (Tag.stringLength bytes place)
  have string : Tag.stringLength bytes place = 0 ∨ place + Tag.stringLength bytes place ≤ bytes.length := by
    unfold Tag.stringLength
    split
    · rename_i comma
      have inside := (List.getElem?_eq_some_iff.mp comma).1
      have run := Tag.length_run_le (bytes.drop (place + 1))
      rw [List.length_drop] at run
      omega
    · exact Or.inl rfl
  unfold valuesStart
  omega

end Layout

namespace Message.View

variable {bytes : Bytes} {start : Nat}

def moved (v : View) (start : Nat) (bytes : Bytes) : View :=
  ⟨v.address, bytes, v.tags, v.offsets.map (start + ·)⟩

/-- A message is found alike wherever it stands in a buffer, at a multiple of four or not. -/
theorem read_drop (within : start ≤ bytes.length) (small : bytes.length < Bytes.limit) (place : Nat) :
    read bytes (start + place) = (read (bytes.drop start) place).map (·.moved start bytes) := by
  unfold read
  rw [Address.length_drop]
  cases address : Address.length bytes (start + place) with
  | error e => rfl
  | ok n =>
    have bound := Address.length_lt address
    have padded := paddedLength_le n
    have values : valuesStart bytes (start + (place + paddedLength n)) ≤ bytes.length + 8 :=
      valuesStart_le (by omega)
    have first : start + valuesStart (bytes.drop start) (place + paddedLength n) =
        valuesStart bytes (start + (place + paddedLength n)) := by
      simp only [valuesStart, Tag.stringLength_drop, Nat.add_assoc]
    have few : ((Tag.listAt bytes (start + (place + paddedLength n))).take 32).length ≤ 32 :=
      List.length_take_le ..
    have offsets := layout_drop within ((Tag.listAt bytes (start + (place + paddedLength n))).take 32)
      (valuesStart (bytes.drop start) (place + paddedLength n)) (bytes.length + 8) (by omega)
      (by omega) (by unfold widest; unfold Bytes.limit at small; omega)
    rw [first] at offsets
    simp only [Except.map, moved, List.drop_drop, Tag.listAt_drop, Nat.add_assoc, offsets]

/-- The arguments of a message that was moved are the same, and their errors the same but for the place. -/
theorem get_moved {v : View} {place : Nat} (within : start ≤ bytes.length)
    (found : read (bytes.drop start) place = .ok v) (index : Nat) :
    (v.moved start bytes).get index = (v.get index).mapError (Error.moved start) := by
  have visible := visible_of_read found
  have aligned := aligned_of_read found
  unfold get
  simp only [moved]
  cases atIndex : v.tags[index]? with
  | none => rfl
  | some tag =>
    have inside : index < v.offsets.length := aligned ▸ (List.getElem?_eq_some_iff.mp atIndex).1
    simp only [List.getD_eq_getElem?_getD, List.getElem?_map, List.getElem?_eq_getElem inside, Option.map_some,
      Option.getD_some, visible, Arguments.decodeAt_drop within]

end Message.View

end OSC
