import Mathlib.Data.List.Infix
import OSC.Proofs.Views

namespace OSC

/-- What a cut may do to a result: it stays what it is, or a truncation is reported in its place. -/
inductive Curtailed {α : Type} : Except Error α → Except Error α → Prop
  | whole (a : α) : Curtailed (.ok a) (.ok a)
  | cut (place needed : Nat) (uncut : Except Error α) : Curtailed (.error (.truncated place needed)) uncut

theorem Curtailed.map {α β : Type} {x y : Except Error α} (f : α → β) (curtailed : Curtailed x y) :
    Curtailed (x.map f) (y.map f) := by
  cases curtailed with
  | whole a => exact .whole (f a)
  | cut place needed => exact .cut ..

theorem Curtailed.bind {α β : Type} {x y : Except Error α} {f g : α → Except Error β} (first : Curtailed x y)
    (next : ∀ a, Curtailed (f a) (g a)) : Curtailed (x >>= f) (y >>= g) := by
  cases first with
  | whole a => exact next a
  | cut place needed => exact .cut ..

variable {bytes : Bytes} {offset : Nat}

namespace Arguments

theorem word_past {width : Nat} (past : bytes.length < offset + width) (uncut : Except Error Nat) :
    Curtailed (word bytes offset width) uncut := by
  unfold word
  rw [Bytes.word_eq_none.mpr past]
  exact .cut ..

theorem word_append (bytes more : Bytes) (offset width : Nat) :
    Curtailed (word bytes offset width) (word (bytes ++ more) offset width) := by
  cases found : bytes.word? offset width with
  | none => exact word_past (Bytes.word_eq_none.mp found) _
  | some n =>
    simp only [word, found, Bytes.word_append found more]
    exact .whole n

theorem textAt_past (past : bytes.length ≤ offset) (uncut : Except Error Bytes) :
    Curtailed (textAt bytes offset) uncut := by
  unfold textAt
  split
  · exact .cut ..
  · cases found : bytes.nulAt? offset with
    | none => exact .cut ..
    | some n =>
      have := Bytes.nulAt_lt found
      omega

theorem textAt_append (bytes more : Bytes) (offset : Nat) :
    Curtailed (textAt bytes offset) (textAt (bytes ++ more) offset) := by
  unfold textAt
  split
  · exact .cut ..
  · rename_i within
    cases found : bytes.nulAt? offset with
    | none => exact .cut ..
    | some n =>
      have inside := Bytes.nulAt_lt found
      rw [if_neg (by rw [List.length_append]; omega), Bytes.nulAt_append found more]
      simp only [Bytes.take_drop_append inside.le]
      exact .whole _

theorem blobAt_past (past : bytes.length ≤ offset) (uncut : Except Error Bytes) :
    Curtailed (blobAt bytes offset) uncut := by
  unfold blobAt word
  rw [Bytes.word_eq_none.mpr (by omega)]
  exact .cut ..

theorem blobAt_append (bytes more : Bytes) (offset : Nat) :
    Curtailed (blobAt bytes offset) (blobAt (bytes ++ more) offset) := by
  refine (word_append bytes more offset 4).bind fun size => ?_
  cases found : bytes.slice? (offset + 4) size with
  | none => exact .cut ..
  | some content =>
    rw [Bytes.slice_append found more]
    exact .whole content

/-- Past the end there are only values that take no bytes, which are the same anywhere. -/
theorem decodeAt_past (past : bytes.length ≤ offset) (long : Bytes) (elsewhere : Nat) (tag : Tag) :
    Curtailed (decodeAt bytes offset tag) (decodeAt long elsewhere tag) := by
  cases tag with
  | bool _ | nil | infinitum | arrayOpen | arrayClose => exact .whole _
  | string | symbol => exact (textAt_past past _).map _
  | blob => exact (blobAt_past past _).map _
  | _ => exact (word_past (by omega) _).map _

theorem decodeAt_append (bytes more : Bytes) (offset : Nat) (tag : Tag) :
    Curtailed (decodeAt bytes offset tag) (decodeAt (bytes ++ more) offset tag) := by
  cases tag with
  | bool _ | nil | infinitum | arrayOpen | arrayClose => exact .whole _
  | string | symbol => exact (textAt_append bytes more offset).map _
  | blob => exact (blobAt_append bytes more offset).map _
  | _ => exact (word_append bytes more offset _).map _

end Arguments

/-- A cut changes how far a value reaches only if it reaches the cut. -/
theorem Tag.span_append (bytes more : Bytes) (offset : Nat) (tag : Tag) :
    tag.span (bytes ++ more) offset = tag.span bytes offset ∨ bytes.length ≤ offset + tag.span bytes offset := by
  have text : textSpan (bytes ++ more) offset = textSpan bytes offset ∨
      bytes.length ≤ offset + textSpan bytes offset := by
    unfold textSpan
    cases found : bytes.nulAt? offset with
    | none => right; dsimp only; omega
    | some n => left; rw [Bytes.nulAt_append found more]
  have blob : blobSpan (bytes ++ more) offset = blobSpan bytes offset ∨
      bytes.length ≤ offset + blobSpan bytes offset := by
    unfold blobSpan
    cases found : bytes.word? offset 4 with
    | none =>
      have short := Bytes.word_eq_none.mp found
      right
      omega
    | some n => left; rw [Bytes.word_append found more]
  cases tag with
  | string | symbol => exact text
  | blob => exact blob
  | _ => exact Or.inl rfl

/-- Where the offsets of a cut message leave those of the whole one, they have passed the cut, and stay
past it. -/
theorem layout_append (more : Bytes) (small : bytes.length < 2 ^ 64) (tags extra : List Tag) {uncut : Nat}
    (drift : uncut = offset ∨ bytes.length ≤ offset) {index : Nat} (recorded : index < tags.length) :
    (layout (bytes ++ more) uncut (tags ++ extra)).getD index 0 = (layout bytes offset tags).getD index 0 ∨
      bytes.length ≤ (layout bytes offset tags).getD index 0 := by
  induction tags generalizing offset uncut index with
  | nil => cases recorded
  | cons tag rest ih =>
    cases index with
    | zero => exact drift
    | succ index =>
      refine ih ?_ (Nat.lt_of_succ_lt_succ recorded)
      rcases drift with rfl | past
      · rcases tag.span_append bytes more uncut with same | past
        · exact Or.inl (by rw [same])
        · right; unfold saturate; omega
      · right; unfold saturate; omega

namespace Tag

/-- The tags of a cut string are the first tags of the whole one. Only if all that is left are tags can
there be more behind the cut. -/
theorem run_append (bytes more : Bytes) :
    run (bytes ++ more) = run bytes ∨ (run bytes).length = bytes.length ∧ run bytes <+: run (bytes ++ more) := by
  induction bytes with
  | nil => exact Or.inr ⟨rfl, List.nil_prefix⟩
  | cons b rest ih =>
    simp only [List.cons_append, run]
    cases ofByte? b with
    | none => exact Or.inl rfl
    | some tag =>
      rcases ih with same | ⟨all, first⟩
      · exact Or.inl (by simp only [same])
      · exact Or.inr ⟨congrArg (· + 1) all, (List.prefix_cons_inj tag).mpr first⟩

theorem listAt_append (bytes more : Bytes) (start : Nat) :
    (listAt (bytes ++ more) start = listAt bytes start ∧
      stringLength (bytes ++ more) start = stringLength bytes start) ∨
    (listAt bytes start <+: listAt (bytes ++ more) start ∧
      bytes.length ≤ start + stringLength bytes start) := by
  by_cases within : start < bytes.length
  · have first : (bytes ++ more)[start]? = bytes[start]? := List.getElem?_append_left within
    have rest : (bytes ++ more).drop (start + 1) = bytes.drop (start + 1) ++ more :=
      List.drop_append_of_le_length (by omega)
    simp only [listAt, stringLength, first, rest]
    split
    · rcases run_append (bytes.drop (start + 1)) more with same | ⟨all, first⟩
      · exact Or.inl ⟨same, by rw [same]⟩
      · rw [List.length_drop] at all
        exact Or.inr ⟨first, by omega⟩
    · exact Or.inl ⟨rfl, rfl⟩
  · have nothing : listAt bytes start = [] := by
      rw [listAt, List.getElem?_eq_none (by omega)]
      rfl
    exact Or.inr ⟨nothing ▸ List.nil_prefix, by omega⟩

end Tag

theorem Address.length_append {start n : Nat} (found : length bytes start = .ok n) (more : Bytes) :
    length (bytes ++ more) start = .ok n := by
  have bound := length_lt found
  unfold length at found ⊢
  rw [List.getElem?_append_left (by omega)]
  split at found
  · rename_i slash
    rw [if_pos slash]
    split at found
    · rename_i rest atNul
      rw [Bytes.nulAt_append atNul more]
      exact found
    · cases found
  · cases found

namespace Message.View

/-- A message that is found although it is cut has its address, and of its arguments none that is wrong. -/
structure Cut (short long : View) : Prop where
  address : long.address = short.address
  tags : short.tags <+: long.tags
  get : ∀ index < short.tags.length, Curtailed (short.get index) (long.get index)

theorem read_append {start : Nat} {short : View} (small : bytes.length < 2 ^ 64)
    (found : read bytes start = .ok short) (more : Bytes) :
    ∃ long, read (bytes ++ more) start = .ok long ∧ short.Cut long := by
  obtain ⟨n, address, rfl⟩ := eq_of_read found
  have inside := Address.length_lt address
  let tagsStart := start + paddedLength n
  obtain ⟨tags, drift⟩ :
      (Tag.listAt bytes tagsStart).take 32 <+: (Tag.listAt (bytes ++ more) tagsStart).take 32 ∧
        (valuesStart (bytes ++ more) tagsStart = valuesStart bytes tagsStart ∨
          bytes.length ≤ valuesStart bytes tagsStart) := by
    unfold valuesStart
    rcases Tag.listAt_append bytes more tagsStart with ⟨same, width⟩ | ⟨first, past⟩
    · exact ⟨same ▸ List.prefix_rfl, Or.inl (by rw [width])⟩
    · have padded := lt_paddedLength (Tag.stringLength bytes tagsStart)
      exact ⟨List.IsPrefix.take first 32, Or.inr (by omega)⟩
  refine ⟨_, by rw [read, Address.length_append address more]; rfl, ?_, tags, ?_⟩
  · exact Bytes.take_drop_append inside.le more
  · intro index recorded
    obtain ⟨extra, whole⟩ := tags
    have here := layout_append more small _ extra drift recorded
    have tag : ((Tag.listAt (bytes ++ more) tagsStart).take 32)[index]? =
        ((Tag.listAt bytes tagsStart).take 32)[index]? := by
      rw [← whole, List.getElem?_append_left recorded]
    rw [whole] at here
    simp only [get]
    rw [tag, List.getElem?_eq_getElem recorded]
    dsimp only
    rcases here with same | past
    · rw [same]
      exact Arguments.decodeAt_append ..
    · exact Arguments.decodeAt_past past ..

end Message.View

/-- A message that is cut off, if it is found at all, is the front of the whole message. Each argument that
it shows is that of the whole message, and one that does not lie before the cut is truncated, never a value
made up from what is left. -/
theorem PacketBuffer.parseAt_cut {p q : PacketBuffer} (same : q.bytes = p.bytes)
    (small : p.capacity < Bytes.limit) {start cut stop n : Nat} (order : cut ≤ stop) {short : PacketBuffer}
    (found : p.parseAt start cut = .ok (short, n)) :
    ∃ long, q.parseAt start stop = .ok (long, n) ∧ long.address = short.address ∧
      short.table.tags <+: long.table.tags ∧
      ∀ index < short.arguments.count, Curtailed (short.arguments.get index) (long.arguments.get index) := by
  have whole : p.bytes.take cut ++ (p.bytes.take stop).drop cut = q.bytes.take stop := by
    have front : (p.bytes.take stop).take cut = p.bytes.take cut := by
      rw [List.take_take, Nat.min_eq_left order]
    rw [same, ← front, List.take_append_drop]
  have shorter : (p.bytes.take cut).length < 2 ^ 64 := by
    rw [capacity, Bytes.limit] at small
    rw [List.length_take]
    omega
  rcases p.parseAt_cases start cut with ⟨short', v, read, parsed, view, _⟩ | ⟨e, _, failed⟩
  · rw [parsed] at found
    cases found
    obtain ⟨w, readLong, cutOff⟩ := Message.View.read_append shorter read ((p.bytes.take stop).drop cut)
    rw [whole] at readLong
    rcases q.parseAt_cases start stop with ⟨long, w', again, parsedLong, viewLong, _⟩ | ⟨e, again, _⟩
    · rw [readLong] at again
      cases again
      subst view viewLong
      refine ⟨long, ?_, cutOff.address, cutOff.tags, ?_⟩
      · rw [parsedLong, cutOff.address]
      · intro index recorded
        have value := cutOff.get index recorded
        rwa [← Message.get_view, ← Message.get_view] at value
    · rw [readLong] at again
      cases again
  · rw [failed] at found
    cases found

def PacketBuffer.textAndNumber : PacketBuffer :=
  ((new 256).load 0 [47, 120, 0, 0, 44, 115, 105, 0, 97, 98, 99, 100, 0, 0, 0, 0, 0, 0, 0, 7]).1

/-- Cut where the text lacks its terminator, the message has no value that it did not have. -/
theorem PacketBuffer.parseAt_textAndNumber_cut :
    textAndNumber.capacity < Bytes.limit ∧ ∃ short, textAndNumber.parseAt 0 12 = .ok (short, 2) ∧
      ∃ long, textAndNumber.parseAt 0 20 = .ok (long, 2) ∧ long.address = short.address ∧
        short.table.tags <+: long.table.tags ∧
        ∀ index < short.arguments.count, Curtailed (short.arguments.get index) (long.arguments.get index) := by
  have small : textAndNumber.capacity < Bytes.limit := by
    rw [textAndNumber, load_capacity, capacity_new]
    decide
  have front : textAndNumber.bytes.take 12 = [47, 120, 0, 0, 44, 115, 105, 0, 97, 98, 99, 100] := by
    rw [textAndNumber, load_bytes (by rw [capacity_new]; decide)]
    rfl
  have found : textAndNumber.parseAt 0 12 = .ok (textAndNumber.found 0 12 2, 2) := by
    rw [parseAt_eq, front]
    rfl
  exact ⟨small, _, found, parseAt_cut rfl small (by decide) found⟩

end OSC
