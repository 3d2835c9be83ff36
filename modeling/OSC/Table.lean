import OSC.Padding
import OSC.Tag

namespace OSC

/-- The tags of a message's arguments and the offsets of their values, at most 32 of each. An offset
outlives its tag: the slots past the recorded tags keep what was last stored in them. -/
structure Table where
  tags : List Tag
  slots : List Nat
  length_tags : tags.length ≤ 32
  length_slots : slots.length = 32

namespace Table

def empty : Table := ⟨[], List.replicate 32 0, by decide, by decide⟩

def count (t : Table) : Nat := t.tags.length

/-- Offsets of the recorded arguments. -/
def offsets (t : Table) : List Nat := t.slots.take t.count

def clear (t : Table) : Table := { t with tags := [], length_tags := by simp }

/-- Records one more argument, if there is room for it. -/
def push? (t : Table) (tag : Tag) (offset : Nat) : Option Table :=
  if room : t.tags.length < 32 then
    some ⟨t.tags ++ [tag], t.slots.set t.tags.length offset, by rw [List.length_append]; exact room,
      by rw [List.length_set, t.length_slots]⟩
  else none

/-- Records the tags of the type tag string at `start`, up to the first byte that is no tag, and gives
the length of that string with its comma. Tags past the first 32 count but are not recorded. Without a
comma there is no string and nothing is recorded. -/
def readTags (t : Table) (bytes : Bytes) (start : Nat) : Table × Nat :=
  if bytes[start]? = some Tag.comma then
    let found := Tag.run (bytes.drop (start + 1))
    ({ t with tags := found.take 32, length_tags := List.length_take_le .. }, found.length + 1)
  else (t.clear, 0)

end Table

/-- Length of the padded text at `offset`. Without a terminator it reaches to the end of the bytes, and
counts at least one. -/
def textSpan (bytes : Bytes) (offset : Nat) : Nat :=
  match bytes.nulAt? offset with
  | some length => paddedLength length
  | none => max (bytes.length - offset) 1

/-- Length of the blob field at `offset`; a length that cannot be read counts as zero. -/
def blobSpan (bytes : Bytes) (offset : Nat) : Nat := 4 + align4 ((bytes.word? offset 4).getD 0)

/-- Bytes from the start of a value at `offset` to that of the next one. -/
def Tag.span (tag : Tag) (bytes : Bytes) (offset : Nat) : Nat :=
  match tag with
  | .string | .symbol => textSpan bytes offset
  | .blob => blobSpan bytes offset
  | other => other.width?.getD 0

/-- Where the values of the tags begin when the first begins at `offset`. -/
def layout (bytes : Bytes) : Nat → List Tag → List Nat
  | _, [] => []
  | offset, tag :: rest => offset :: layout bytes (saturate (offset + tag.span bytes offset)) rest

theorem length_layout (bytes : Bytes) (offset : Nat) (tags : List Tag) :
    (layout bytes offset tags).length = tags.length := by
  induction tags generalizing offset with
  | nil => rfl
  | cons tag rest ih => simp [layout, ih]

namespace Table

/-- Stores the offsets of the recorded arguments when the first begins at `offset`. -/
def locate (t : Table) (bytes : Bytes) (offset : Nat) : Table :=
  { t with
    slots := layout bytes offset t.tags ++ t.slots.drop t.count
    length_slots := by
      have tags := t.length_tags
      have slots := t.length_slots
      simp only [List.length_append, length_layout, List.length_drop, count]
      omega }

end Table

end OSC
