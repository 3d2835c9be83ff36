import OSC.Proofs.Readings
import OSC.Proofs.Strict.Safety

namespace OSC

namespace Table

/-- What can be done to a table. Offsets may be any numbers, and bytes need not be those of one message. -/
inductive Operation
  | push (tag : Tag) (offset : Nat)
  | clear
  | readTags (bytes : Bytes) (start : Nat)
  | locate (bytes : Bytes) (offset : Nat)

/-- Bytes are no more than there can be. -/
def Operation.Fits : Operation → Prop
  | readTags bytes _ | locate bytes _ => bytes.length < Bytes.limit
  | push _ _ | clear => True

instance (operation : Operation) : Decidable operation.Fits :=
  match operation with
  | .readTags bytes _ | .locate bytes _ => inferInstanceAs (Decidable (bytes.length < Bytes.limit))
  | .push _ _ | .clear => inferInstanceAs (Decidable True)

def perform (t : Table) : Operation → Table
  | .push tag offset => (t.push? tag offset).getD t
  | .clear => t.clear
  | .readTags bytes start => (t.readTags bytes start).1
  | .locate bytes offset => t.locate bytes offset

def run (t : Table) (operations : List Operation) : Table := operations.foldl perform t

variable {t : Table}

theorem push_some (room : t.count < 32) (tag : Tag) (offset : Nat) :
    ∃ now, t.push? tag offset = some now ∧ now.tags = t.tags ++ [tag] ∧ now.slots = t.slots.set t.count offset :=
  ⟨_, dif_pos room, rfl, rfl⟩

theorem push_none (full : t.count = 32) (tag : Tag) (offset : Nat) : t.push? tag offset = none :=
  dif_neg (Nat.not_lt.mpr (Nat.le_of_eq full.symm))

end Table

namespace Strict

open Table (Operation)

namespace Slots

/-- Stores one more argument, and whether there was a slot for it. -/
def push (s : Slots) (tag : Tag) (offset : Nat) : Strict (Slots × Bool) :=
  if s.count = 32 then return (s, false)
  else do
    let tags ← store s.tags s.count tag
    let offsets ← store s.offsets s.count offset
    let count ← add s.count 1
    return (⟨tags, offsets, count⟩, true)

def clear (s : Slots) : Slots := { s with count := 0 }

def perform (s : Slots) : Operation → Strict Slots
  | .push tag offset => do
    let (now, _) ← s.push tag offset
    return now
  | .clear => return s.clear
  | .readTags bytes start => do
    let (now, _) ← s.readTags bytes start
    return now
  | .locate bytes offset => s.locate bytes offset

def run (s : Slots) : List Operation → Strict Slots
  | [] => return s
  | operation :: rest => do
    let now ← s.perform operation
    now.run rest

namespace Keep

variable {s : Slots} {t : Table}

theorem few (keep : s.Keep t) : s.count ≤ 32 := by
  rw [keep.count]
  exact t.length_tags

theorem clear (keep : s.Keep t) : s.clear.Keep t.clear := ⟨rfl, rfl, keep.room, keep.offsets⟩

/-- What is pushed is recorded behind what was there, and only when the slots are full it is not. -/
theorem push_eq (keep : s.Keep t) (tag : Tag) (offset : Nat) :
    ∃ now, s.push tag offset = .ok (now, (t.push? tag offset).isSome) ∧ now.Keep ((t.push? tag offset).getD t) := by
  by_cases full : s.count = 32
  · have refused := Table.push_none (keep.count.symm.trans full) tag offset
    rw [refused]
    exact ⟨s, if_pos full, keep⟩
  · have room : s.count < 32 := Nat.lt_of_le_of_ne keep.few full
    have tags : s.count < s.tags.length := keep.room.symm ▸ room
    have offsets : s.count < s.offsets.length := by rwa [keep.offsets, t.length_slots]
    obtain ⟨pushed, found, pushedTags, pushedSlots⟩ := Table.push_some (keep.count ▸ room) tag offset
    refine ⟨⟨s.tags.set s.count tag, s.offsets.set s.count offset, s.count + 1⟩, ?_, ?_⟩
    · rw [push, if_neg full, store_eq tags, ok_bind, store_eq offsets, ok_bind, add_eq (by omega), ok_bind, found]
      rfl
    · rw [found]
      refine ⟨?_, ?_, by rw [List.length_set, keep.room], ?_⟩
      · rw [Option.getD_some, Table.count, pushedTags, List.length_append, keep.count]
        rfl
      · rw [Option.getD_some, pushedTags, take_set tags, keep.tags]
      · rw [Option.getD_some, pushedSlots, keep.offsets, keep.count]

/-- One operation breaches no bound and leaves a table in its slots. -/
theorem perform (keep : s.Keep t) {operation : Operation} (fits : operation.Fits) :
    ∃ now, s.perform operation = .ok now ∧ now.Keep (t.perform operation) := by
  cases operation with
  | push tag offset =>
    obtain ⟨now, pushed, after⟩ := keep.push_eq tag offset
    refine ⟨now, ?_, after⟩
    rw [Slots.perform, pushed]
    rfl
  | clear => exact ⟨s.clear, rfl, keep.clear⟩
  | readTags bytes start =>
    obtain ⟨now, read, after⟩ := keep.readTags_eq fits start
    refine ⟨now, ?_, after⟩
    rw [Slots.perform, read]
    rfl
  | locate bytes offset => exact keep.locate_eq fits offset

theorem run (keep : s.Keep t) {operations : List Operation} (fit : ∀ operation ∈ operations, operation.Fits) :
    ∃ now, s.run operations = .ok now ∧ now.Keep (t.run operations) := by
  induction operations generalizing s t with
  | nil => exact ⟨s, rfl, keep⟩
  | cons operation rest ih =>
    obtain ⟨next, first, after⟩ := keep.perform (fit operation (List.mem_cons_self ..))
    obtain ⟨now, later, last⟩ := ih after fun operation member => fit operation (List.mem_cons_of_mem _ member)
    refine ⟨now, ?_, last⟩
    rw [Slots.run, first, ok_bind, later]

end Keep

/-- Whatever was done to a table, and whatever the bytes are, its arguments are read without a breach. Each reader
gives the answer that is due: an error that says why there is no value, or a value. -/
theorem run_answers {bytes : Bytes} (small : bytes.length < Bytes.limit) {operations : List Operation}
    (fit : ∀ operation ∈ operations, operation.Fits) :
    let arguments : Arguments := ⟨bytes, Table.empty.run operations⟩
    (∃ slots, Slots.empty.run operations = .ok slots ∧ (Values.mk bytes slots).Safe arguments) ∧
      ∀ index, arguments.Answers index := by
  intro arguments
  obtain ⟨slots, run, keep⟩ := keep_empty.run fit
  have values : (Values.mk bytes slots).Keep arguments := ⟨rfl, keep⟩
  exact ⟨⟨slots, run, values.safe small⟩, arguments.answers⟩

/-- A number, a symbol behind it, the size of a blob that is not there, and tags that were led past all bytes. -/
def astray : List Operation :=
  [.push .char 3, .clear, .readTags [44, 105, 83, 98, 115] 0, .locate [0, 0, 0, 0, 0, 0, 0, 0, 255] 0,
    .push .int64 (2 ^ 64 - 1), .push .nil (2 ^ 64 - 1)]

theorem run_answers_astray :
    let bytes : Bytes := [0, 0, 0, 7, 104, 105, 0, 0, 0, 0, 0, 1]
    let arguments : Arguments := ⟨bytes, Table.empty.run astray⟩
    bytes.length < Bytes.limit ∧ (∀ operation ∈ astray, operation.Fits) ∧
      arguments.table.tags = [.int32, .symbol, .blob, .string, .int64, .nil] ∧
      arguments.table.offsets = [0, 4, 8, 12, 2 ^ 64 - 1, 2 ^ 64 - 1] ∧
      arguments.read Reader.int.conversion 0 = .ok 7 ∧
      arguments.read Reader.midi.conversion 1 = .error (.typeMismatch 1 .string "MIDI") ∧
      arguments.read Reader.color.conversion 2 = .error (.truncated 12 1) ∧
      arguments.read Reader.text.conversion 3 = .error (.truncated 12 1) ∧
      arguments.read Reader.bool.conversion 4 = .error (.truncated (2 ^ 64 - 1) 8) ∧
      arguments.isNilOrInfinitum 5 = .ok true ∧
      arguments.read Reader.blob.conversion 6 = .error (.indexOutOfRange 6 6) ∧
      (∃ slots, Slots.empty.run astray = .ok slots ∧ (Values.mk bytes slots).Safe arguments) ∧
        ∀ index, arguments.Answers index := by
  intro bytes arguments
  have small : bytes.length < Bytes.limit := by decide
  have fit : ∀ operation ∈ astray, operation.Fits := by decide
  exact ⟨small, fit, rfl, rfl, rfl, rfl, rfl, rfl, rfl, rfl, rfl, run_answers small fit⟩

end Slots

end Strict

end OSC
