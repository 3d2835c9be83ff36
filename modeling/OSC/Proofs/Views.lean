import OSC.Conversion
import OSC.PacketBuffer
import OSC.Proofs.Slices

namespace OSC

/-- All the tags of the type tag string at `start`, of which there are none without a comma. -/
def Tag.listAt (bytes : Bytes) (start : Nat) : List Tag :=
  if bytes[start]? = some comma then run (bytes.drop (start + 1)) else []

def Tag.stringLength (bytes : Bytes) (start : Nat) : Nat :=
  if bytes[start]? = some comma then (run (bytes.drop (start + 1))).length + 1 else 0

theorem Table.readTags_tags (t : Table) (bytes : Bytes) (start : Nat) :
    (t.readTags bytes start).1.tags = (Tag.listAt bytes start).take 32 := by
  unfold readTags Tag.listAt
  split <;> rfl

theorem Table.readTags_length (t : Table) (bytes : Bytes) (start : Nat) :
    (t.readTags bytes start).2 = Tag.stringLength bytes start := by
  unfold readTags Tag.stringLength
  split <;> rfl

/-- Locating replaces every recorded offset, so none of them is left from before. -/
theorem Table.locate_offsets (t : Table) (bytes : Bytes) (offset : Nat) :
    (t.locate bytes offset).offsets = layout bytes offset t.tags :=
  List.take_left' (length_layout bytes offset t.tags)

theorem Address.length_lt {bytes : Bytes} {start n : Nat} (found : length bytes start = .ok n) :
    start + n < bytes.length := by
  unfold length at found
  split at found
  · split at found
    · rename_i rest atNul
      cases found
      have := Bytes.nulAt_lt atNul
      omega
    · cases found
  · cases found

theorem Address.slash_of_length {bytes : Bytes} {start n : Nat} (found : length bytes start = .ok n) :
    bytes[start]? = some slash := by
  unfold length at found
  split at found
  · assumption
  · cases found

namespace Message

/-- All that can be seen of a message. The table behind it may hold more, left over from messages
before it. -/
structure View where
  address : Bytes
  visible : Bytes
  tags : List Tag
  offsets : List Nat

def view (m : Message) : View :=
  ⟨m.address, m.arguments.bytes, m.arguments.table.tags, m.arguments.table.offsets⟩

namespace View

/-- Where the values of a message begin, told from the place of its type tag string. -/
def valuesStart (bytes : Bytes) (tagsStart : Nat) : Nat :=
  tagsStart + paddedLength (Tag.stringLength bytes tagsStart)

/-- The message at `start`, which reaches to the end of the bytes. Nothing but the bytes is looked at. -/
def read (bytes : Bytes) (start : Nat) : Except Error View :=
  (Address.length bytes start).map fun length =>
    let tagsStart := start + paddedLength length
    let tags := (Tag.listAt bytes tagsStart).take 32
    ⟨(bytes.drop start).take length, bytes, tags, layout bytes (valuesStart bytes tagsStart) tags⟩

def get (v : View) (index : Nat) : Except Error Argument :=
  match v.tags[index]? with
  | some tag => Arguments.decodeAt v.visible (v.offsets.getD index 0) tag
  | none => .error (.indexOutOfRange index v.tags.length)

theorem eq_of_read {bytes : Bytes} {start : Nat} {v : View} (found : read bytes start = .ok v) :
    ∃ length, Address.length bytes start = .ok length ∧
      let tagsStart := start + paddedLength length
      let tags := (Tag.listAt bytes tagsStart).take 32
      v = ⟨(bytes.drop start).take length, bytes, tags, layout bytes (valuesStart bytes tagsStart) tags⟩ := by
  unfold read at found
  cases address : Address.length bytes start with
  | error e => rw [address] at found; cases found
  | ok length =>
    rw [address] at found
    cases found
    exact ⟨length, rfl, rfl⟩

theorem visible_of_read {bytes : Bytes} {start : Nat} {v : View} (found : read bytes start = .ok v) :
    v.visible = bytes := by
  obtain ⟨_, _, rfl⟩ := eq_of_read found
  rfl

theorem aligned_of_read {bytes : Bytes} {start : Nat} {v : View} (found : read bytes start = .ok v) :
    v.offsets.length = v.tags.length := by
  obtain ⟨_, _, rfl⟩ := eq_of_read found
  exact length_layout _ _ _

theorem slash_of_read {bytes : Bytes} {start : Nat} {v : View} (found : read bytes start = .ok v) :
    bytes[start]? = some Address.slash := by
  obtain ⟨_, address, _⟩ := eq_of_read found
  exact Address.slash_of_length address

end View

theorem get_view (m : Message) (index : Nat) : m.arguments.get index = m.view.get index := by
  unfold Arguments.get Arguments.tag View.get
  cases atIndex : m.arguments.table.tags[index]? with
  | none => simp only [view, atIndex]; rfl
  | some tag =>
    have recorded : index < m.arguments.table.tags.length := (List.getElem?_eq_some_iff.mp atIndex).1
    have slot : m.arguments.table.slots.getD index 0 = m.view.offsets.getD index 0 := by
      simp only [view, Table.offsets, Table.count, List.getD_eq_getElem?_getD,
        List.getElem?_take_of_lt recorded]
    simp only [view, atIndex] at slot ⊢
    rw [← slot]
    rfl

/-- Two messages that no callback can tell apart. -/
structure Alike (m n : Message) : Prop where
  address : m.address = n.address
  count : m.arguments.count = n.arguments.count
  tags : m.arguments.table.tags = n.arguments.table.tags
  offsets : m.arguments.table.offsets = n.arguments.table.offsets
  visible : m.arguments.bytes = n.arguments.bytes
  get : ∀ index, m.arguments.get index = n.arguments.get index
  read : ∀ {α : Type} (c : Conversion α) index, m.arguments.read c index = n.arguments.read c index
  isNilOrInfinitum : ∀ index, m.arguments.isNilOrInfinitum index = n.arguments.isNilOrInfinitum index

theorem Alike.of_view {m n : Message} (same : m.view = n.view) : m.Alike n := by
  have tags : m.arguments.table.tags = n.arguments.table.tags := congrArg View.tags same
  have get (index : Nat) : m.arguments.get index = n.arguments.get index := by
    rw [get_view, get_view, same]
  exact {
    address := congrArg View.address same
    count := congrArg List.length tags
    tags
    offsets := congrArg View.offsets same
    visible := congrArg View.visible same
    get
    read := fun c index => by simp only [Arguments.read, get]
    isNilOrInfinitum := fun index => by
      simp only [Arguments.isNilOrInfinitum, Arguments.tag, Arguments.count, Table.count, tags] }

end Message

namespace PacketBuffer

theorem capacity_new (capacity : Nat) :
    (new capacity).capacity = if capacity < 256 then defaultCapacity else capacity :=
  List.length_replicate ..

theorem load_capacity (p : PacketBuffer) (start : Nat) (data : Bytes) :
    (p.load start data).1.capacity = p.capacity := by
  simp only [load, capacity, List.length_append, List.length_take, List.length_drop]
  omega

theorem load_bytes {p : PacketBuffer} {start : Nat} {data : Bytes} (room : start + data.length ≤ p.capacity) :
    (p.load start data).1.bytes = p.bytes.take start ++ (data ++ p.bytes.drop (start + data.length)) := by
  have whole : data.take (p.capacity - start) = data := List.take_of_length_le (by omega)
  simp only [load, Nat.min_eq_left (by omega : start ≤ p.capacity), whole, List.append_assoc]

theorem load_slice {p : PacketBuffer} {start : Nat} {data : Bytes} (room : start + data.length ≤ p.capacity) :
    (p.load start data).1.bytes.take (start + data.length) = p.bytes.take start ++ data := by
  have before : (p.bytes.take start).length = start := by
    rw [capacity] at room
    rw [List.length_take]
    omega
  rw [load_bytes room, ← List.append_assoc]
  exact List.take_left' (by rw [List.length_append, before])

theorem load_length (p : PacketBuffer) (data : Bytes) : (p.load 0 data).2 = (data.take p.capacity).length := by
  simp only [load, Nat.zero_min, Nat.sub_zero, Nat.zero_add]

/-- Data at the front of the buffer is all that is seen of it up to where the data ends. -/
theorem load_front (p : PacketBuffer) (data : Bytes) :
    (p.load 0 data).1.bytes.take (p.load 0 data).2 = data.take p.capacity := by
  simp only [load, Nat.zero_min, Nat.sub_zero, Nat.zero_add, List.take_zero, List.nil_append, List.take_left]

/-- The buffer after a message at `start` was found whose address has `length` bytes. -/
def found (p : PacketBuffer) (start stop length : Nat) : PacketBuffer :=
  let visible := p.bytes.take stop
  let tagsStart := start + paddedLength length
  ⟨p.bytes, (p.table.readTags visible tagsStart).1.locate visible (Message.View.valuesStart visible tagsStart),
    start, length, min stop p.capacity⟩

theorem take_stop (p : PacketBuffer) (stop : Nat) : p.bytes.take (min stop p.capacity) = p.bytes.take stop :=
  List.take_eq_take_min.symm

theorem parseAt_eq (p : PacketBuffer) (start stop : Nat) :
    p.parseAt start stop =
      (Address.length (p.bytes.take stop) start).map fun length => (p.found start stop length, length) := by
  simp only [parseAt, take_stop]
  cases Address.length (p.bytes.take stop) start with
  | error e => rfl
  | ok n =>
    simp only [found, Message.View.valuesStart, ← p.table.readTags_length]
    rfl

theorem found_view (p : PacketBuffer) (start stop length : Nat) :
    (p.found start stop length).message.view =
      let visible := p.bytes.take stop
      let tagsStart := start + paddedLength length
      let tags := (Tag.listAt visible tagsStart).take 32
      ⟨(p.bytes.drop start).take length, visible, tags,
        layout visible (Message.View.valuesStart visible tagsStart) tags⟩ := by
  simp only [Message.view, message, address, arguments, found, take_stop, Table.locate_offsets]
  simp only [Table.locate, Table.readTags_tags]

/-- What a buffer finds is what its bytes up to the end of the message show, whatever was found before.
Where they show nothing, nothing is found. -/
theorem parseAt_cases (p : PacketBuffer) (start stop : Nat) :
    (∃ q v, Message.View.read (p.bytes.take stop) start = .ok v ∧
      p.parseAt start stop = .ok (q, v.address.length) ∧ q.message.view = v ∧ q.bytes = p.bytes) ∨
    ∃ e, Message.View.read (p.bytes.take stop) start = .error e ∧ p.parseAt start stop = .error e := by
  rw [parseAt_eq, Message.View.read]
  cases address : Address.length (p.bytes.take stop) start with
  | error e => exact Or.inr ⟨e, rfl, rfl⟩
  | ok n =>
    have bound := Address.length_lt address
    have inside : start + n < stop := by rw [List.length_take] at bound; omega
    have text : ((p.bytes.take stop).drop start).take n = (p.bytes.drop start).take n := by
      rw [List.drop_take, List.take_take, Nat.min_eq_left (by omega)]
    have length : ((p.bytes.drop start).take n).length = n := by
      rw [List.length_take, List.length_drop]
      rw [List.length_take] at bound
      omega
    refine Or.inl ⟨p.found start stop n, (p.found start stop n).message.view, ?_, ?_, rfl, rfl⟩
    · simp only [found_view, Except.map, text]
    · simp only [found_view, Except.map, length]

/-- In a buffer that a packet was copied to the front of, what the packet shows is found. -/
theorem parse_load {p : PacketBuffer} {packet : Bytes} (room : packet.length ≤ p.capacity) {v : Message.View}
    (shown : Message.View.read packet 0 = .ok v) :
    ∃ found, (p.load 0 packet).1.parse packet.length = .ok (found, v.address.length) ∧ found.message.view = v := by
  have slice : (p.load 0 packet).1.bytes.take (0 + packet.length) = p.bytes.take 0 ++ packet :=
    load_slice (by rwa [Nat.zero_add])
  rw [Nat.zero_add, List.take_zero, List.nil_append] at slice
  rcases (p.load 0 packet).1.parseAt_cases 0 packet.length with ⟨found, w, read, parsed, view, _⟩ | ⟨e, read, _⟩
  · rw [slice, shown] at read
    cases read
    exact ⟨found, parsed, view⟩
  · rw [slice, shown] at read
    cases read

end PacketBuffer

end OSC
