import OSC.PacketBuffer
import OSC.Proofs.Strict.Words
import OSC.Proofs.Translation

namespace OSC.Strict

variable {bytes : Bytes}

/-- The slots of a table: as many tags and offsets as there can be, of which `count` are recorded. -/
structure Slots where
  tags : List Tag
  offsets : List Nat
  count : Nat

def Slots.empty : Slots := ⟨List.replicate 32 .nil, List.replicate 32 0, 0⟩

/-- Stores one more tag, if there is a slot for it. -/
def put (tags : List Tag) (recognized : Nat) (tag : Tag) : Strict (List Tag) :=
  if recognized < 32 then store tags recognized tag else .ok tags

/-- Stores and counts tags up to the first byte that is none, `recognized` of which are behind. -/
def record (tags : List Tag) (recognized : Nat) : Bytes → Strict (List Tag × Nat)
  | [] => .ok (tags, recognized)
  | b :: rest =>
    match Tag.ofByte? b with
    | none => .ok (tags, recognized)
    | some tag => do
      let stored ← put tags recognized tag
      let recognized ← add recognized 1
      record stored recognized rest

def Slots.readTags (s : Slots) (bytes : Bytes) (start : Nat) : Strict (Slots × Nat) :=
  if bytes[start]? = some Tag.comma then do
    let tagsStart ← add start 1
    let rest ← dropping bytes tagsStart
    let (tags, recognized) ← record s.tags 0 rest
    let length ← add recognized 1
    return ({ s with tags, count := min recognized 32 }, length)
  else .ok ({ s with count := 0 }, 0)

def textSpan (bytes : Bytes) (offset : Nat) : Strict Nat :=
  let rest := (drop? bytes offset).getD []
  match rest.findIdx? (· == 0) with
  | some length => paddedLength length
  | none => .ok (max rest.length 1)

def span (tag : Tag) (bytes : Bytes) (offset : Nat) : Strict Nat :=
  match tag with
  | .string | .symbol => textSpan bytes offset
  | .blob => do
    let size ← word? bytes offset 4
    let content ← align4 (min (size.getD 0) (2 ^ 64 - 1 - 3))
    return saturate (4 + content)
  | other => .ok (other.width?.getD 0)

/-- Stores the offsets of as many arguments as are left, the first of them in slot `index`. -/
def Slots.locateFrom (s : Slots) (bytes : Bytes) (offset index : Nat) : (left : Nat) → Strict Slots
  | 0 => .ok s
  | left + 1 => do
    let offsets ← store s.offsets index offset
    let tag ← fetch s.tags index
    let advance ← span tag bytes offset
    Slots.locateFrom { s with offsets } bytes (saturate (offset + advance)) (index + 1) left

def Slots.locate (s : Slots) (bytes : Bytes) (offset : Nat) : Strict Slots := s.locateFrom bytes offset 0 s.count

def addressLength (bytes : Bytes) (offset : Nat) : Strict (Except Error Nat) :=
  if bytes[offset]? = some Address.slash then do
    let textStart ← add offset 1
    let rest ← dropping bytes textStart
    match rest.findIdx? (· == 0) with
    | some n =>
      let length ← add n 1
      return .ok length
    | none => return .error .malformedAddress
  else .ok (.error .malformedAddress)

/-- A packet buffer with its table in slots. -/
structure Buffer where
  bytes : Bytes
  slots : Slots
  addressStart : Nat
  addressLength : Nat
  stop : Nat

namespace Buffer

def new (capacity : Nat) : Buffer :=
  ⟨Bytes.zeros (if capacity < 256 then PacketBuffer.defaultCapacity else capacity), .empty, 0, 0, 0⟩

/-- The buffer after looking for a message, and what came of it. -/
def parseAt (b : Buffer) (start stop : Nat) : Strict (Buffer × Except Error Nat) := do
  let stop := min stop b.bytes.length
  let bytes ← taking b.bytes stop
  let address ← Strict.addressLength bytes start
  match address with
  | .error e => return (b, .error e)
  | .ok addressLength =>
    let addressSpan ← paddedLength addressLength
    let tagsStart ← add start addressSpan
    let (slots, tagsLength) ← b.slots.readTags bytes tagsStart
    let tagsSpan ← paddedLength tagsLength
    let valuesStart ← add tagsStart tagsSpan
    let slots ← slots.locate bytes valuesStart
    return (⟨b.bytes, slots, start, addressLength, stop⟩, .ok addressLength)

def parse (b : Buffer) (length : Nat) : Strict (Buffer × Except Error Nat) := b.parseAt 0 length

def readTags (b : Buffer) (bytes : Bytes) (start : Nat) : Strict (Buffer × Nat) := do
  let (slots, length) ← b.slots.readTags bytes start
  return ({ b with slots }, length)

def locate (b : Buffer) (offset : Nat) : Strict Buffer := do
  let slots ← b.slots.locate b.bytes offset
  return { b with slots }

end Buffer

/-- Slots that a table is in. What is left in them past its tags does not count. -/
structure Slots.Keep (s : Slots) (t : Table) : Prop where
  count : s.count = t.count
  tags : s.tags.take s.count = t.tags
  room : s.tags.length = 32
  offsets : s.offsets = t.slots

theorem Slots.keep_empty : Slots.empty.Keep .empty := ⟨rfl, rfl, rfl, rfl⟩

theorem take_stored {tags : List Tag} (room : tags.length = 32) (recognized : Nat) :
    tags.take recognized = (tags.take recognized ++ []).take 32 := by
  have short : (tags.take recognized).length ≤ 32 := by
    rw [List.length_take]
    omega
  rw [List.append_nil, List.take_of_length_le short]

theorem take_take_append {α : Type} (xs ys : List α) (n : Nat) :
    (xs.take n ++ ys).take n = (xs ++ ys).take n := by
  rw [List.take_append, List.take_append, List.take_take, Nat.min_self, List.length_take]
  congr 2
  omega

theorem take_set {α : Type} {xs : List α} {n : Nat} (inside : n < xs.length) (x : α) :
    (xs.set n x).take (n + 1) = xs.take n ++ [x] := by
  rw [List.take_add_one, List.getElem?_set_self inside, List.take_set_of_le (Nat.le_refl n)]
  rfl

theorem put_eq {tags : List Tag} (room : tags.length = 32) (recognized : Nat) (tag : Tag) :
    ∃ stored, put tags recognized tag = .ok stored ∧ stored.length = 32 ∧
      stored.take (recognized + 1) = (tags.take recognized ++ [tag]).take 32 := by
  by_cases free : recognized < 32
  · refine ⟨tags.set recognized tag, ?_, by rw [List.length_set, room], ?_⟩
    · rw [put, if_pos free, store_eq (by omega)]
    · have short : (tags.take recognized ++ [tag]).length ≤ 32 := by
        rw [List.length_append, List.length_take, List.length_singleton]
        omega
      rw [take_set (by omega), List.take_of_length_le short]
  · refine ⟨tags, if_neg free, room, ?_⟩
    have full : tags.take recognized = tags := List.take_of_length_le (by omega)
    rw [full, List.take_left' room, List.take_of_length_le (by omega)]

/-- Stored tags follow those stored before them, as far as there are slots. -/
theorem record_eq {tags : List Tag} {recognized : Nat} (room : tags.length = 32)
    (small : recognized + bytes.length < 2 ^ 64) :
    ∃ stored, record tags recognized bytes = .ok (stored, recognized + (Tag.run bytes).length) ∧
      stored.length = 32 ∧
      stored.take (recognized + (Tag.run bytes).length) = (tags.take recognized ++ Tag.run bytes).take 32 := by
  induction bytes generalizing tags recognized with
  | nil => exact ⟨tags, rfl, room, take_stored room recognized⟩
  | cons b rest ih =>
    rw [List.length_cons] at small
    cases known : Tag.ofByte? b with
    | none =>
      have ended : Tag.run (b :: rest) = [] := by rw [Tag.run, known]
      rw [ended]
      refine ⟨tags, ?_, room, take_stored room recognized⟩
      rw [record, known]
      rfl
    | some tag =>
      have more : Tag.run (b :: rest) = tag :: Tag.run rest := by rw [Tag.run, known]
      obtain ⟨now, first, nowRoom, before⟩ := put_eq room recognized tag
      obtain ⟨stored, step, storedRoom, after⟩ := ih nowRoom (by omega : recognized + 1 + rest.length < 2 ^ 64)
      have counted : recognized + (tag :: Tag.run rest).length = recognized + 1 + (Tag.run rest).length := by
        rw [List.length_cons]
        omega
      rw [more, counted]
      refine ⟨stored, ?_, storedRoom, ?_⟩
      · simp only [record, known, first, ok_bind, add_eq (by omega : recognized + 1 < 2 ^ 64), step]
      · rw [after, before, take_take_append, List.append_assoc, List.singleton_append]

/-- The tags found are recorded and the same length is given for them. -/
theorem Slots.Keep.readTags_eq {s : Slots} {t : Table} (keep : s.Keep t) (small : bytes.length < Bytes.limit)
    (start : Nat) :
    ∃ now, s.readTags bytes start = .ok (now, (t.readTags bytes start).2) ∧
      now.Keep (t.readTags bytes start).1 := by
  unfold Bytes.limit at small
  unfold Slots.readTags Table.readTags
  by_cases comma : bytes[start]? = some Tag.comma
  · have inside : start < bytes.length := (List.getElem?_eq_some_iff.mp comma).1
    have rest : (bytes.drop (start + 1)).length < 2 ^ 63 := by
      rw [List.length_drop]
      omega
    have shorter := Tag.length_run_le (bytes.drop (start + 1))
    obtain ⟨stored, recorded, room, tags⟩ :=
      record_eq keep.room (by omega : 0 + (bytes.drop (start + 1)).length < 2 ^ 64)
    rw [Nat.zero_add] at recorded tags
    simp only [if_pos comma, add_eq (by omega : start + 1 < 2 ^ 64), recorded, ok_bind,
      dropping_eq (by omega : start + 1 ≤ bytes.length),
      add_eq (by omega : (Tag.run (bytes.drop (start + 1))).length + 1 < 2 ^ 64)]
    refine ⟨_, rfl, ?_, ?_, room, keep.offsets⟩
    · rw [Table.count, List.length_take, Nat.min_comm]
    · have capped : stored.take (min (Tag.run (bytes.drop (start + 1))).length 32) =
          stored.take (Tag.run (bytes.drop (start + 1))).length := by
        rw [← room, ← List.take_eq_take_min]
      rw [List.take_zero, List.nil_append] at tags
      exact capped.trans tags
  · rw [if_neg comma, if_neg comma]
    exact ⟨_, rfl, rfl, rfl, keep.room, keep.offsets⟩

theorem drop_getD (bytes : Bytes) (offset : Nat) : (drop? bytes offset).getD [] = bytes.drop offset := by
  unfold drop?
  split
  · rfl
  · rw [List.drop_eq_nil_of_le (by omega)]
    rfl

theorem textSpan_eq (small : bytes.length < Bytes.limit) (offset : Nat) :
    textSpan bytes offset = .ok (OSC.textSpan bytes offset) := by
  unfold Bytes.limit at small
  simp only [textSpan, OSC.textSpan, drop_getD, Bytes.nulAt?]
  cases nul : (bytes.drop offset).findIdx? (· == 0) with
  | none => simp only [List.length_drop]
  | some length =>
    have inside : offset + length < bytes.length := Bytes.nulAt_lt nul
    exact paddedLength_eq (by omega)

theorem span_eq (small : bytes.length < Bytes.limit) (tag : Tag) (offset : Nat) :
    span tag bytes offset = .ok (tag.span bytes offset) := by
  cases tag with
  | string | symbol => exact textSpan_eq small offset
  | blob =>
    have size : (bytes.word? offset 4).getD 0 < 2 ^ 32 := by
      cases found : bytes.word? offset 4 with
      | none => decide
      | some n => exact Bytes.word_lt found
    have content := align4_lt ((bytes.word? offset 4).getD 0)
    simp only [span, word_eq small, ok_bind]
    rw [Nat.min_eq_left (by omega), align4_eq (by omega), ok_bind, saturate, Nat.min_eq_left (by omega)]
    rfl
  | _ => rfl

/-- The slots ahead of the loop are as they were, and those behind it hold the places of their arguments. -/
theorem Slots.locateFrom_eq (small : bytes.length < Bytes.limit) (count : Nat) (stale ahead passed : List Tag)
    (behind old : List Nat) (aligned : passed.length = behind.length)
    (room : ahead.length ≤ old.length) (offset : Nat) :
    Slots.locateFrom ⟨passed ++ (ahead ++ stale), behind ++ old, count⟩ bytes offset behind.length ahead.length =
      .ok ⟨passed ++ (ahead ++ stale), behind ++ (layout bytes offset ahead ++ old.drop ahead.length), count⟩ := by
  induction ahead generalizing passed behind old offset with
  | nil => rfl
  | cons tag rest ih =>
    obtain _ | ⟨slot, old⟩ := old
    · cases room
    · have inside : behind.length < (behind ++ slot :: old).length := by
        rw [List.length_append, List.length_cons]
        omega
      have stored : (behind ++ slot :: old).set behind.length offset = behind ++ offset :: old := by
        rw [List.set_append_right _ _ (Nat.le_refl _), Nat.sub_self, List.set_cons_zero]
      have here : (passed ++ (tag :: rest ++ stale))[behind.length]? = some tag := by
        rw [← aligned, List.getElem?_append_right (Nat.le_refl _), Nat.sub_self]
        rfl
      have alignedNow : (passed ++ [tag]).length = (behind ++ [offset]).length := by
        simp only [List.length_append, List.length_singleton, aligned]
      have next := ih (passed ++ [tag]) (behind ++ [offset]) old alignedNow (Nat.le_of_succ_le_succ room)
        (saturate (offset + tag.span bytes offset))
      simp only [List.append_assoc, List.singleton_append, List.length_append, List.length_singleton] at next
      simp only [List.length_cons, locateFrom, store_eq inside, stored, fetch_eq here, span_eq small, ok_bind]
      exact next

theorem Slots.Keep.locate_eq {s : Slots} {t : Table} (keep : s.Keep t) (small : bytes.length < Bytes.limit)
    (offset : Nat) : ∃ now, s.locate bytes offset = .ok now ∧ now.Keep (t.locate bytes offset) := by
  have count : s.count = t.tags.length := keep.count
  have split : t.tags ++ s.tags.drop s.count = s.tags := by rw [← keep.tags, List.take_append_drop]
  have room : t.tags.length ≤ s.offsets.length := by
    rw [keep.offsets, t.length_slots]
    exact t.length_tags
  have walked := Slots.locateFrom_eq small s.count (s.tags.drop s.count) t.tags [] [] s.offsets rfl room offset
  simp only [List.nil_append, List.length_nil, split, ← count] at walked
  refine ⟨_, walked, keep.count, keep.tags, keep.room, ?_⟩
  rw [keep.offsets, keep.count]
  rfl

theorem addressLength_eq (small : bytes.length < Bytes.limit) (offset : Nat) :
    addressLength bytes offset = .ok (Address.length bytes offset) := by
  unfold Bytes.limit at small
  unfold addressLength Address.length
  by_cases slash : bytes[offset]? = some Address.slash
  · have inside : offset < bytes.length := (List.getElem?_eq_some_iff.mp slash).1
    simp only [if_pos slash, add_eq (by omega : offset + 1 < 2 ^ 64), ok_bind, Bytes.nulAt?,
      dropping_eq (by omega : offset + 1 ≤ bytes.length)]
    cases nul : (bytes.drop (offset + 1)).findIdx? (· == 0) with
    | none => rfl
    | some n =>
      have before : offset + 1 + n < bytes.length := Bytes.nulAt_lt nul
      simp only [add_eq (by omega : n + 1 < 2 ^ 64)]
      rfl
  · rw [if_neg slash, if_neg slash]

/-- Behind a message's address there is room in a word for all that leads to its values. -/
theorem valuesStart_small (small : bytes.length < Bytes.limit) {tagsStart : Nat}
    (near : tagsStart ≤ bytes.length + 4) :
    Tag.stringLength bytes tagsStart + 4 < 2 ^ 64 ∧ Message.View.valuesStart bytes tagsStart < 2 ^ 64 := by
  have valuesStart := Message.View.valuesStart_le near
  have longer := lt_paddedLength (Tag.stringLength bytes tagsStart)
  have behind : OSC.paddedLength (Tag.stringLength bytes tagsStart) ≤ Message.View.valuesStart bytes tagsStart :=
    Nat.le_add_left ..
  unfold Bytes.limit at small
  omega

namespace Buffer

/-- The buffer `p` with its table in slots. -/
structure Keep (b : Buffer) (p : PacketBuffer) : Prop where
  bytes : b.bytes = p.bytes
  slots : b.slots.Keep p.table
  addressStart : b.addressStart = p.addressStart
  addressLength : b.addressLength = p.addressLength
  stop : b.stop = p.stop

variable {b : Buffer} {p : PacketBuffer}

theorem keep_new (capacity : Nat) : (new capacity).Keep (.new capacity) :=
  ⟨rfl, Slots.keep_empty, rfl, rfl, rfl⟩

/-- A message is found as it is without the checks, within the bytes that were asked for; or nothing changes. -/
theorem parseAt_eq (keep : b.Keep p) (small : p.capacity < Bytes.limit) (start stop : Nat) :
    (∃ length now, p.parseAt start stop = .ok (p.found start stop length, length) ∧
      start + length < min stop p.capacity ∧ b.parseAt start stop = .ok (now, .ok length) ∧
      now.Keep (p.found start stop length)) ∨
    ∃ e, p.parseAt start stop = .error e ∧ b.parseAt start stop = .ok (b, .error e) := by
  have visibleLength : (p.bytes.take stop).length = min stop p.capacity := List.length_take
  have visibleSmall : (p.bytes.take stop).length < Bytes.limit := by omega
  have visible : taking b.bytes (min stop b.bytes.length) = .ok (p.bytes.take stop) := by
    rw [taking_eq (Nat.min_le_right ..), keep.bytes, ← List.take_eq_take_min]
  cases address : Address.length (p.bytes.take stop) start with
  | error e =>
    refine Or.inr ⟨e, ?_, ?_⟩
    · rw [p.parseAt_eq, address]
      rfl
    · simp only [parseAt, visible, addressLength_eq visibleSmall, address, ok_bind]
      rfl
  | ok length =>
    have inside := Address.length_lt address
    have addressSpan := paddedLength_le length
    have near : start + OSC.paddedLength length ≤ (p.bytes.take stop).length + 4 := by omega
    obtain ⟨tagsSmall, valuesSmall⟩ := valuesStart_small visibleSmall near
    obtain ⟨tagged, readTags, keepTags⟩ := keep.slots.readTags_eq visibleSmall (start + OSC.paddedLength length)
    rw [p.table.readTags_length] at readTags
    obtain ⟨located, locate, keepOffsets⟩ := keepTags.locate_eq visibleSmall
      (Message.View.valuesStart (p.bytes.take stop) (start + OSC.paddedLength length))
    unfold Bytes.limit at visibleSmall
    refine Or.inl ⟨length, ⟨b.bytes, located, start, length, min stop b.bytes.length⟩, ?_, ?_, ?_, ?_⟩
    · rw [p.parseAt_eq, address]
      rfl
    · omega
    · simp only [parseAt, visible, addressLength_eq visibleSmall, address, ok_bind]
      rw [paddedLength_eq (by omega), ok_bind, add_eq (by omega), ok_bind, readTags]
      dsimp only [ok_bind]
      rw [paddedLength_eq tagsSmall, ok_bind, add_eq valuesSmall, ok_bind]
      unfold Message.View.valuesStart at locate
      rw [locate]
      rfl
    · exact ⟨keep.bytes, keepOffsets, rfl, rfl, by rw [keep.bytes]; rfl⟩

theorem readTags_eq (keep : b.Keep p) {bytes : Bytes} (small : bytes.length < Bytes.limit) (start : Nat) :
    ∃ now, b.readTags bytes start = .ok (now, (p.readTags bytes start).2) ∧ now.Keep (p.readTags bytes start).1 := by
  obtain ⟨slots, step, keepSlots⟩ := keep.slots.readTags_eq small start
  refine ⟨{ b with slots }, ?_, keep.bytes, keepSlots, keep.addressStart, keep.addressLength, keep.stop⟩
  rw [readTags, step]
  rfl

theorem locate_eq (keep : b.Keep p) (small : p.capacity < Bytes.limit) (offset : Nat) :
    ∃ now, b.locate offset = .ok now ∧ now.Keep (p.locate offset) := by
  obtain ⟨slots, step, keepSlots⟩ := keep.slots.locate_eq small offset
  refine ⟨{ b with slots }, ?_, keep.bytes, keepSlots, keep.addressStart, keep.addressLength, keep.stop⟩
  rw [locate, keep.bytes, step]
  rfl

end Buffer

end OSC.Strict
