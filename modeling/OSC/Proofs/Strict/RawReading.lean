import OSC.Proofs.Readings
import OSC.Proofs.Strict.Safety

namespace OSC

/-- What arguments can be read as without a check of their types. -/
inductive RawReader
  | int
  | long
  | float
  | double
  | char
  | color
  | midi
  | timeTag

namespace RawReader

/-- The reader of the same type that checks. -/
def checked : RawReader → Reader
  | int => .int
  | long => .long
  | float => .float
  | double => .double
  | char => .char
  | color => .color
  | midi => .midi
  | timeTag => .timeTag

def fixed : (r : RawReader) → FixedWidth r.checked.Value
  | int => .int
  | long => .long
  | float => .float
  | double => .double
  | char => .char
  | color => .color
  | midi => .midi
  | timeTag => .timeTag

/-- The tag under which values of the type are sent. -/
def tag : RawReader → Tag
  | int => .int32
  | long => .int64
  | float => .float32
  | double => .float64
  | char => .char
  | color => .color
  | midi => .midi
  | timeTag => .timeTag

/-- A value of the type as an argument. -/
def argument : (r : RawReader) → r.checked.Value → Argument
  | int => .int32
  | long => .int64
  | float => .float32
  | double => .float64
  | char => .char
  | color => .color
  | midi => .midi
  | timeTag => .timeTag

def width (r : RawReader) : Nat := r.fixed.width

theorem width_le (r : RawReader) : r.width ≤ 8 := by cases r <;> decide

theorem convert_argument (r : RawReader) (value : r.checked.Value) :
    r.checked.conversion.convert? (r.argument value) = some value := by
  cases r <;> rfl

theorem decodeAt_tag (r : RawReader) (bytes : Bytes) (offset : Nat) :
    Arguments.decodeAt bytes offset r.tag =
      (Arguments.word bytes offset r.width).map fun n => r.argument (r.fixed.ofNat n) := by
  cases r <;> rfl

end RawReader

namespace Arguments

variable {a : Arguments} {r : RawReader} {index offset : Nat}

theorem Records.slot {tag : Tag} (recorded : a.Records index tag offset) : a.table.slots[index]? = some offset := by
  have place := recorded.place
  have inside : index < a.table.count := inside_of_place place
  rwa [Table.offsets, List.getElem?_take_of_lt inside] at place

/-- Under the tag of its own type a value is the number at its place, also when it is read with a check. -/
theorem Records.read_own (recorded : a.Records index r.tag offset) :
    a.read r.checked.conversion index = (word a.bytes offset r.width).map r.fixed.ofNat := by
  have found := recorded.get_eq
  rw [r.decodeAt_tag] at found
  rw [read, found]
  cases word a.bytes offset r.width with
  | error e => rfl
  | ok n => simp only [Except.map, bind, Except.bind, r.convert_argument]

theorem Records.readRaw_own (recorded : a.Records index r.tag offset) :
    a.readRaw? r.fixed index = (a.bytes.word? offset r.width).map r.fixed.ofNat := by
  rw [readRaw?, recorded.slot]
  rfl

/-- A code that no character has is read as the replacement character, with a check and without. -/
theorem Records.char_replaced {code : Nat} (recorded : a.Records index RawReader.char.tag offset)
    (found : a.bytes.word? offset 4 = some code) (invalid : ¬ code.isValidChar) :
    a.readRaw? .char index = some '\uFFFD' ∧ a.read .char index = .ok '\uFFFD' := by
  have word : a.bytes.word? offset RawReader.char.width = some code := found
  have replaced : RawReader.char.fixed.ofNat code = '\uFFFD' := if_neg invalid
  have raw := recorded.readRaw_own
  have own := recorded.read_own
  rw [word, Option.map_some, replaced] at raw
  rw [Arguments.word, word, Except.map, replaced] at own
  exact ⟨raw, own⟩

end Arguments

namespace Strict

variable {α : Type}

/-- What becomes of a sum that is no word: it is a breach, or starts over behind the largest word. -/
inductive Overflow
  | breach
  | wrap

def Overflow.add : Overflow → Nat → Nat → Strict Nat
  | breach, m, n => Strict.add m n
  | wrap, m, n => return (m + n) % 2 ^ 64

theorem Overflow.add_eq (o : Overflow) {m n : Nat} (small : m + n < 2 ^ 64) : o.add m n = .ok (m + n) := by
  cases o with
  | breach => exact Strict.add_eq small
  | wrap => rw [Overflow.add, Nat.mod_eq_of_lt small]; rfl

/-- Where a sum of two words is no word, it is given as less than each of them, if it is given. -/
theorem Overflow.add_large (o : Overflow) {m n : Nat} (word : m < 2 ^ 64) (word' : n < 2 ^ 64) (large : 2 ^ 64 ≤ m + n) :
    (∃ breach, o.add m n = .error breach) ∨ ∃ sum, o.add m n = .ok sum ∧ sum < m := by
  cases o with
  | breach => exact Or.inl ⟨.overflow, if_neg (Nat.not_lt.mpr large)⟩
  | wrap => exact Or.inr ⟨_, rfl, by omega⟩

/-- The value whose bytes are at the offset in a slot. Neither its end nor its bytes are asked for with care. -/
def Values.readRaw (v : Values) (o : Overflow) (f : FixedWidth α) (index : Nat) : Strict α := do
  let offset ← fetch v.slots.offsets index
  let stop ← o.add offset f.width
  let piece ← slice v.bytes offset stop
  let digits ← taking piece f.width
  return f.ofNat (Bytes.toNat digits)

theorem slice_error {xs : List α} {start stop : Nat} (outside : stop < start ∨ xs.length < stop) :
    slice xs start stop = .error .outside := if_neg (by omega)

namespace Values

variable {v : Values} {a : Arguments} {index offset : Nat} {f : FixedWidth α}

theorem readRaw_of_word (keep : v.Keep a) (small : a.bytes.length < Bytes.limit)
    (slot : a.table.slots[index]? = some offset) {n : Nat} (word : a.bytes.word? offset f.width = some n)
    (o : Overflow) : v.readRaw o f index = .ok (f.ofNat n) := by
  have inside := Bytes.word_within word
  have sum : offset + f.width < 2 ^ 64 := by unfold Bytes.limit at small; omega
  have place : v.slots.offsets[index]? = some offset := by rw [keep.slots.offsets, slot]
  have whole : ((a.bytes.drop offset).take f.width).length = f.width := by
    rw [List.length_take, List.length_drop]
    omega
  have digits : Bytes.toNat ((a.bytes.drop offset).take f.width) = n := by
    have found := word
    rw [Bytes.word?, Bytes.slice?, if_pos inside] at found
    exact Option.some.inj found
  rw [readRaw, fetch_eq place, ok_bind, o.add_eq sum, ok_bind, keep.bytes, slice_eq (Nat.le_add_right ..) inside,
    ok_bind, Nat.add_sub_cancel_left, taking_eq (Nat.le_of_eq whole.symm), ok_bind, List.take_of_length_le
    (Nat.le_of_eq whole), digits]
  rfl

/-- Bytes that are not all there are a breach in any case: an end that is no word lies before the bytes. -/
theorem readRaw_of_none (keep : v.Keep a) (slot : a.table.slots[index]? = some offset) (small : offset < 2 ^ 64)
    (narrow : f.width ≤ 8) (none : a.bytes.word? offset f.width = none) (o : Overflow) :
    ∃ breach, v.readRaw o f index = .error breach := by
  have past := Bytes.word_eq_none.mp none
  have place : v.slots.offsets[index]? = some offset := by rw [keep.slots.offsets, slot]
  rw [readRaw, fetch_eq place, ok_bind, keep.bytes]
  by_cases sum : offset + f.width < 2 ^ 64
  · rw [o.add_eq sum, ok_bind, slice_error (Or.inr past)]
    exact ⟨_, rfl⟩
  · rcases o.add_large small (by omega) (Nat.not_lt.mp sum) with ⟨breach, failed⟩ | ⟨stop, given, before⟩
    · rw [failed]
      exact ⟨_, rfl⟩
    · rw [given, ok_bind, slice_error (Or.inl before)]
      exact ⟨_, rfl⟩

/-- How a value that is read without a check compares with what the reader that checks gives: where there is none,
that reader says that bytes are missing. Sums that are no words change nothing about it. -/
structure Agrees (v : Values) (a : Arguments) (r : RawReader) (index offset : Nat) : Prop where
  value : ∀ x, a.readRaw? r.fixed index = some x ↔ a.read r.checked.conversion index = .ok x
  none : a.readRaw? r.fixed index = none ↔
    a.read r.checked.conversion index = .error (.truncated offset r.width)
  given : ∀ o x, v.readRaw o r.fixed index = .ok x ↔ v.read r.checked.conversion index = .ok (.ok x)
  breach : ∀ o, (∃ breach, v.readRaw o r.fixed index = .error breach) ↔
    v.read r.checked.conversion index = .ok (.error (.truncated offset r.width))

theorem agrees {r : RawReader} (keep : v.Keep a) (small : a.bytes.length < Bytes.limit)
    (recorded : a.Records index r.tag offset) (word : offset < 2 ^ 64) : v.Agrees a r index offset := by
  have checked := (keep.safe small).read r.checked.conversion index
  have raw := recorded.readRaw_own
  have own := recorded.read_own
  cases found : a.bytes.word? offset r.width with
  | none =>
    have torn : ∀ o, ∃ breach, v.readRaw o r.fixed index = .error breach :=
      readRaw_of_none keep recorded.slot word r.width_le found
    rw [found, Option.map_none] at raw
    rw [Arguments.word, found, Except.map] at own
    rw [own] at checked
    refine ⟨fun x => ?_, iff_of_true raw own, fun o x => ?_, fun o => iff_of_true (torn o) checked⟩
    · simp [raw, own]
    · obtain ⟨breach, failed⟩ := torn o
      simp [failed, checked]
  | some n =>
    have whole : ∀ o, v.readRaw o r.fixed index = .ok (r.fixed.ofNat n) :=
      readRaw_of_word keep small recorded.slot found
    rw [found, Option.map_some] at raw
    rw [Arguments.word, found, Except.map] at own
    rw [own] at checked
    refine ⟨fun x => ?_, ?_, fun o x => ?_, fun o => ?_⟩
    · rw [raw, own, Option.some.injEq, Except.ok.injEq]
    · simp [raw, own]
    · rw [whole, checked, Except.ok.injEq, Except.ok.injEq, Except.ok.injEq]
    · simp [checked, whole]

end Values

namespace Buffer

variable {b now : Buffer} {p : PacketBuffer} {start stop length : Nat}

/-- The places of arguments that were found are words, however far they lie. -/
theorem place_lt (small : p.capacity < Bytes.limit) (inside : start + length < min stop p.capacity) {index offset : Nat}
    (place : (p.found start stop length).table.offsets[index]? = some offset) : offset < 2 ^ 64 := by
  have visibleLength : (p.bytes.take stop).length = min stop p.capacity := List.length_take
  have visibleSmall : (p.bytes.take stop).length < Bytes.limit := by omega
  have addressSpan := paddedLength_le length
  have near : start + OSC.paddedLength length ≤ (p.bytes.take stop).length + 4 := by omega
  have valuesStart := (valuesStart_small visibleSmall near).2
  rw [PacketBuffer.found, Table.locate_offsets] at place
  exact layout_lt valuesStart offset (List.mem_of_getElem? place)

/-- After a message was found, its arguments are read without a check just as they are with it. -/
theorem values_agree (keep : b.Keep p) (small : p.capacity < Bytes.limit)
    (parsed : b.parseAt start stop = .ok (now, .ok length)) :
    ∃ found v, p.parseAt start stop = .ok (found, length) ∧ now.values = .ok v ∧
      ∀ (r : RawReader) (index : Nat), found.table.tags[index]? = some r.tag →
        ∃ offset, found.arguments.Records index r.tag offset ∧ v.Agrees found.arguments r index offset := by
  rcases parseAt_eq keep small start stop with ⟨length', now', model, inside, checked, keepFound⟩ | ⟨e, _, failed⟩
  · rw [checked] at parsed
    cases parsed
    have sound : Sound p.capacity now (p.found start stop length) :=
      ⟨keepFound, rfl, Or.inr ⟨inside, Nat.min_le_right ..⟩⟩
    obtain ⟨v, taken, keepValues⟩ := sound.values
    refine ⟨_, v, model, taken, fun r index tagged => ?_⟩
    have recordedIndex : index < (p.found start stop length).arguments.count := (List.getElem?_eq_some_iff.mp tagged).1
    obtain ⟨tag, offset, recorded⟩ := Arguments.records recordedIndex
    obtain rfl : tag = r.tag := Option.some.inj (recorded.tag.symm.trans tagged)
    have visible : (p.found start stop length).arguments.bytes.length < Bytes.limit := by
      rw [PacketBuffer.arguments, List.length_take]
      exact Nat.lt_of_le_of_lt (Nat.min_le_right ..) small
    exact ⟨offset, recorded, Values.agrees keepValues visible recorded (place_lt small inside recorded.place)⟩
  · rw [failed] at parsed
    cases parsed

end Buffer

/-- Under the tag of its own type a value is read without a check of its tag just as it is with it. Where its bytes are
not all there the one is a breach, whatever becomes of sums that are no words, and the other says which bytes are
missing. That holds of any tables, and so of those that a message was found with. -/
theorem readRaw_agrees :
    (∀ (v : Values) (a : Arguments) (r : RawReader) (index offset : Nat), v.Keep a → a.bytes.length < Bytes.limit →
      a.Records index r.tag offset → offset < 2 ^ 64 → v.Agrees a r index offset) ∧
    (∀ (a : Arguments) (index offset code : Nat), a.Records index RawReader.char.tag offset →
      a.bytes.word? offset 4 = some code → ¬ code.isValidChar →
      a.readRaw? .char index = some '\uFFFD' ∧ a.read .char index = .ok '\uFFFD') ∧
    ∀ (b now : Buffer) (p : PacketBuffer) (start stop length : Nat), b.Keep p → p.capacity < Bytes.limit →
      b.parseAt start stop = .ok (now, .ok length) →
      ∃ found v, p.parseAt start stop = .ok (found, length) ∧ now.values = .ok v ∧
        ∀ (r : RawReader) (index : Nat), found.table.tags[index]? = some r.tag →
          ∃ offset, found.arguments.Records index r.tag offset ∧ v.Agrees found.arguments r index offset := by
  refine ⟨fun v a r index offset keep small recorded word => ?_, fun a index offset code recorded found invalid => ?_,
    fun b now p start stop length keep small parsed => ?_⟩
  · exact Values.agrees keep small recorded word
  · exact recorded.char_replaced found invalid
  · exact Buffer.values_agree keep small parsed

/-- A number, a code without a character, a number that would end past the largest word, one that is none, and a time
of which a byte is missing. -/
def frayed : Arguments :=
  ⟨[0, 0, 0, 7, 0, 0, 216, 0, 255, 192, 0, 1],
    ⟨[.int32, .char, .int64, .float32, .timeTag], [0, 4, 2 ^ 64 - 1, 8, 5] ++ List.replicate 27 0, by decide, by decide⟩⟩

def frayedSlots : Values :=
  ⟨frayed.bytes, ⟨[.int32, .char, .int64, .float32, .timeTag] ++ List.replicate 27 .nil, frayed.table.slots, 5⟩⟩

/-- A message of two numbers, half of the second of which is missing. -/
def halved : Bytes := [47, 97, 0, 0, 44, 105, 105, 0, 0, 0, 0, 7, 0, 0]

theorem readRaw_agrees_frayed :
    frayedSlots.Keep frayed ∧ frayed.bytes.length < Bytes.limit ∧
      frayed.readRaw? .int 0 = some 7 ∧ frayedSlots.Agrees frayed .int 0 0 ∧
      ¬ Nat.isValidChar 0xD800 ∧ frayed.readRaw? .char 1 = some '\uFFFD' ∧ frayed.read .char 1 = .ok '\uFFFD' ∧
      frayed.read .long 2 = .error (.truncated (2 ^ 64 - 1) 8) ∧ frayedSlots.Agrees frayed .long 2 (2 ^ 64 - 1) ∧
      frayedSlots.readRaw .breach .long 2 = .error .overflow ∧ frayedSlots.readRaw .wrap .long 2 = .error .outside ∧
      frayed.readRaw? .float 3 = some ⟨0xFFC00001⟩ ∧ frayedSlots.Agrees frayed .float 3 8 ∧
      frayed.read .timeTag 4 = .error (.truncated 5 8) ∧ frayedSlots.Agrees frayed .timeTag 4 5 ∧
      ∃ now found v, (Buffer.mk halved .empty 0 0 0).parseAt 0 14 = .ok (now, .ok 2) ∧
        (PacketBuffer.mk halved .empty 0 0 0).parseAt 0 14 = .ok (found, 2) ∧ now.values = .ok v ∧
        found.arguments.read .int 1 = .error (.truncated 12 4) ∧ v.Agrees found.arguments .int 1 12 := by
  obtain ⟨agrees, replaced, parsed⟩ := readRaw_agrees
  have keep : frayedSlots.Keep frayed := ⟨rfl, rfl, rfl, rfl, rfl⟩
  have small : frayed.bytes.length < Bytes.limit := by decide
  have invalid : ¬ Nat.isValidChar 0xD800 := by decide
  obtain ⟨raw, checked⟩ := replaced frayed 1 4 0xD800 ⟨rfl, rfl⟩ rfl invalid
  have keepBuffer : (Buffer.mk halved .empty 0 0 0).Keep ⟨halved, .empty, 0, 0, 0⟩ :=
    ⟨rfl, Slots.keep_empty, rfl, rfl, rfl⟩
  obtain ⟨found, v, model, taken, agree⟩ := parsed _ _ _ 0 14 2 keepBuffer (by decide) rfl
  obtain rfl : (PacketBuffer.mk halved .empty 0 0 0).found 0 14 2 = found := by
    cases model
    rfl
  obtain ⟨offset, recorded, halfAgrees⟩ := agree .int 1 rfl
  obtain rfl : 12 = offset := by
    have place := recorded.place
    cases place
    rfl
  exact ⟨keep, small, rfl, agrees _ _ .int 0 0 keep small ⟨rfl, rfl⟩ (by decide), invalid, raw, checked, rfl,
    agrees _ _ .long 2 _ keep small ⟨rfl, rfl⟩ (by decide), rfl, rfl, rfl,
    agrees _ _ .float 3 8 keep small ⟨rfl, rfl⟩ (by decide), rfl,
    agrees _ _ .timeTag 4 5 keep small ⟨rfl, rfl⟩ (by decide), _, _, v, rfl, model, taken, rfl, halfAgrees⟩

end Strict

end OSC
