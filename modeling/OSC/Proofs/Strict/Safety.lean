import OSC.Proofs.Strict.Bundles
import OSC.Proofs.Strict.Reading

namespace OSC

namespace PacketBuffer

/-- What can be done to a buffer. Tags may be taken from any bytes, and offsets stored for them that lead
anywhere. -/
inductive Operation
  | write (content : Bytes)
  | parse (length : Nat)
  | parseAt (start stop : Nat)
  | readTags (bytes : Bytes) (start : Nat)
  | locate (offset : Nat)

/-- What is written fills the buffer, and other bytes are no more than there can be. -/
def Operation.Fits (capacity : Nat) : Operation → Prop
  | write content => content.length = capacity
  | readTags bytes _ => bytes.length < Bytes.limit
  | parse _ | parseAt _ _ | locate _ => True

instance (capacity : Nat) (operation : Operation) : Decidable (operation.Fits capacity) :=
  match operation with
  | .write content => inferInstanceAs (Decidable (content.length = capacity))
  | .readTags bytes _ => inferInstanceAs (Decidable (bytes.length < Bytes.limit))
  | .parse _ | .parseAt _ _ | .locate _ => inferInstanceAs (Decidable True)

/-- The length that an operation gives, if it gives one, or why it failed. -/
abbrev Reply := Except Error (Option Nat)

/-- The buffer after looking for a message, which stays as it was without one. -/
def settle (p : PacketBuffer) : Except Error (PacketBuffer × Nat) → PacketBuffer × Reply
  | .ok (found, length) => (found, .ok (some length))
  | .error e => (p, .error e)

def perform (p : PacketBuffer) : Operation → PacketBuffer × Reply
  | .write content => ({ p with bytes := content }, .ok none)
  | .parse length => p.settle (p.parse length)
  | .parseAt start stop => p.settle (p.parseAt start stop)
  | .readTags bytes start => ((p.readTags bytes start).1, .ok (some (p.readTags bytes start).2))
  | .locate offset => (p.locate offset, .ok none)

def run (p : PacketBuffer) (operations : List Operation) : PacketBuffer :=
  operations.foldl (fun p operation => (p.perform operation).1) p

/-- Nothing was found yet, or a message whose address is followed by more, all of it in the buffer. -/
def Bounded (p : PacketBuffer) : Prop :=
  (p.addressStart = 0 ∧ p.addressLength = 0 ∧ p.stop = 0) ∨
    (p.addressStart + p.addressLength < p.stop ∧ p.stop ≤ p.capacity)

end PacketBuffer

namespace Strict

open PacketBuffer (Operation Reply)

namespace Buffer

def perform (b : Buffer) : Operation → Strict (Buffer × Reply)
  | .write content =>
    if content.length = b.bytes.length then return ({ b with bytes := content }, .ok none) else .error .outside
  | .parse length => do
    let (now, found) ← b.parse length
    return (now, found.map some)
  | .parseAt start stop => do
    let (now, found) ← b.parseAt start stop
    return (now, found.map some)
  | .readTags bytes start => do
    let (now, length) ← b.readTags bytes start
    return (now, .ok (some length))
  | .locate offset => do
    let now ← b.locate offset
    return (now, .ok none)

def run (b : Buffer) : List Operation → Strict Buffer
  | [] => return b
  | operation :: rest => do
    let (now, _) ← b.perform operation
    now.run rest

def address (b : Buffer) : Strict Bytes := do
  let addressStop ← add b.addressStart b.addressLength
  slice b.bytes b.addressStart addressStop

def values (b : Buffer) : Strict Values := do
  let visible ← taking b.bytes b.stop
  return ⟨visible, b.slots⟩

/-- A buffer of some capacity with its table in slots, and what was found in it within bounds. -/
structure Sound (capacity : Nat) (b : Buffer) (p : PacketBuffer) : Prop where
  keep : b.Keep p
  capacity : p.capacity = capacity
  bounded : p.Bounded

variable {capacity : Nat} {b : Buffer} {p : PacketBuffer}

theorem sound_new (capacity : Nat) : Sound (PacketBuffer.new capacity).capacity (new capacity) (.new capacity) :=
  ⟨keep_new capacity, rfl, Or.inl ⟨rfl, rfl, rfl⟩⟩

namespace Sound

theorem length_lt (sound : Sound capacity b p) (small : capacity < Bytes.limit) : p.bytes.length < Bytes.limit := by
  have same : p.bytes.length = capacity := sound.capacity
  rwa [same]

/-- Wherever a message is looked for, it is found within bounds or nothing changes. -/
theorem perform_parseAt (sound : Sound capacity b p) (small : capacity < Bytes.limit) (start stop : Nat) :
    ∃ now, b.perform (.parseAt start stop) = .ok (now, (p.perform (.parseAt start stop)).2) ∧
      Sound capacity now (p.perform (.parseAt start stop)).1 := by
  rcases parseAt_eq sound.keep (sound.length_lt small) start stop with
    ⟨length, now, parsed, inside, checked, keep⟩ | ⟨e, failed, checked⟩
  · simp only [Buffer.perform, checked, ok_bind, PacketBuffer.perform, parsed]
    exact ⟨now, rfl, keep, sound.capacity, Or.inr ⟨inside, Nat.min_le_right ..⟩⟩
  · simp only [Buffer.perform, checked, ok_bind, PacketBuffer.perform, failed]
    exact ⟨b, rfl, sound⟩

/-- One operation breaches no bound and leaves a sound buffer. -/
theorem perform (sound : Sound capacity b p) (small : capacity < Bytes.limit) {operation : Operation}
    (fits : operation.Fits capacity) :
    ∃ now, b.perform operation = .ok (now, (p.perform operation).2) ∧
      Sound capacity now (p.perform operation).1 := by
  have room := sound.length_lt small
  cases operation with
  | write content =>
    have filled : content.length = b.bytes.length := by
      rw [sound.keep.bytes]
      exact Eq.trans fits sound.capacity.symm
    refine ⟨{ b with bytes := content }, if_pos filled, ?_, fits, ?_⟩
    · exact ⟨rfl, sound.keep.slots, sound.keep.addressStart, sound.keep.addressLength, sound.keep.stop⟩
    · have same : content.length = p.capacity := Eq.trans fits sound.capacity.symm
      exact sound.bounded.imp id fun inside => ⟨inside.1, Nat.le_trans inside.2 (Nat.le_of_eq same.symm)⟩
  | parse length => exact sound.perform_parseAt small 0 length
  | parseAt start stop => exact sound.perform_parseAt small start stop
  | readTags bytes start =>
    obtain ⟨now, checked, keep⟩ := readTags_eq sound.keep fits start
    refine ⟨now, ?_, keep, sound.capacity, sound.bounded⟩
    simp only [Buffer.perform, checked, ok_bind]
    rfl
  | locate offset =>
    obtain ⟨now, checked, keep⟩ := locate_eq sound.keep room offset
    refine ⟨now, ?_, keep, sound.capacity, sound.bounded⟩
    simp only [Buffer.perform, checked, ok_bind]
    rfl

theorem run (sound : Sound capacity b p) (small : capacity < Bytes.limit) {operations : List Operation}
    (fit : ∀ operation ∈ operations, operation.Fits capacity) :
    ∃ now, b.run operations = .ok now ∧ Sound capacity now (p.run operations) := by
  induction operations generalizing b p with
  | nil => exact ⟨b, rfl, sound⟩
  | cons operation rest ih =>
    obtain ⟨next, checked, after⟩ := sound.perform small (fit operation (List.mem_cons_self ..))
    obtain ⟨now, later, last⟩ := ih after fun operation member => fit operation (List.mem_cons_of_mem _ member)
    refine ⟨now, ?_, last⟩
    simp only [Buffer.run, checked, ok_bind]
    exact later

theorem address (sound : Sound capacity b p) (small : capacity < Bytes.limit) : b.address = .ok p.address := by
  have inside : b.addressStart + b.addressLength ≤ b.bytes.length := by
    have bounded := sound.bounded
    rw [sound.keep.addressStart, sound.keep.addressLength, sound.keep.bytes]
    unfold PacketBuffer.Bounded PacketBuffer.capacity at bounded
    omega
  have word := sound.length_lt small
  unfold Bytes.limit at word
  rw [← sound.keep.bytes] at word
  rw [Buffer.address, add_eq (by omega), ok_bind, slice_eq (Nat.le_add_right ..) inside, Nat.add_sub_cancel_left,
    sound.keep.bytes, sound.keep.addressStart, sound.keep.addressLength]
  rfl

theorem values (sound : Sound capacity b p) : ∃ v, b.values = .ok v ∧ v.Keep p.arguments := by
  have inside : b.stop ≤ b.bytes.length := by
    have bounded := sound.bounded
    rw [sound.keep.stop, sound.keep.bytes]
    unfold PacketBuffer.Bounded PacketBuffer.capacity at bounded
    omega
  refine ⟨⟨b.bytes.take b.stop, b.slots⟩, ?_, ?_, sound.keep.slots⟩
  · rw [Buffer.values, taking_eq inside]
    rfl
  · rw [sound.keep.bytes, sound.keep.stop]
    rfl

end Sound

end Buffer

/-- Arguments are read without a breach, and read as they are without the checks. -/
structure Values.Safe (v : Values) (a : Arguments) : Prop where
  get : ∀ index, v.get index = .ok (a.get index)
  read : ∀ {α : Type} (c : Conversion α) index, v.read c index = .ok (a.read c index)
  readText : ∀ index, v.readText index = .ok (a.read .text index)
  isNilOrInfinitum : ∀ index, v.isNilOrInfinitum index = .ok (a.isNilOrInfinitum index)

theorem Values.Keep.safe {v : Values} {a : Arguments} (keep : v.Keep a) (small : a.bytes.length < Bytes.limit) :
    v.Safe a where
  get := get_eq keep small
  read := fun c => readBy_eq keep small c fun _ => rfl
  readText := readBy_eq keep small .text text_eq
  isNilOrInfinitum := isNilOrInfinitum_eq keep

namespace Buffer

/-- What was found lies within the buffer, and whatever is asked of it next breaches no bound: the answer is
that of the buffer without the checks. -/
structure Safe (b : Buffer) (p : PacketBuffer) : Prop where
  keep : b.Keep p
  count : b.slots.count ≤ 32
  bounded : (b.addressStart = 0 ∧ b.addressLength = 0 ∧ b.stop = 0) ∨
    (b.addressStart + b.addressLength < b.stop ∧ b.stop ≤ b.bytes.length)
  perform : ∀ operation : Operation, operation.Fits p.capacity →
    ∃ now, b.perform operation = .ok (now, (p.perform operation).2) ∧ now.Keep (p.perform operation).1
  failed : ∀ start stop now e, b.parseAt start stop = .ok (now, .error e) → now = b
  marked : ∀ offset, isMarkedAt b.bytes offset = .ok (p.isBundleAt offset)
  address : b.address = .ok p.address
  values : ∃ v, b.values = .ok v ∧ v.Safe p.arguments ∧
    ∀ w : Writer, v.writeMessage p.address = .ok ((w.message p.message).1.bytes, (w.message p.message).2)

variable {capacity : Nat} {b : Buffer} {p : PacketBuffer}

theorem Sound.safe (sound : Sound capacity b p) (small : capacity < Bytes.limit) : b.Safe p where
  keep := sound.keep
  count := by
    rw [sound.keep.slots.count]
    exact p.table.length_tags
  bounded := by
    rw [sound.keep.addressStart, sound.keep.addressLength, sound.keep.stop, sound.keep.bytes]
    exact sound.bounded
  perform := by
    intro operation fits
    obtain ⟨now, checked, after⟩ := sound.perform small (sound.capacity ▸ fits)
    exact ⟨now, checked, after.keep⟩
  failed := by
    intro start stop now e checked
    rcases parseAt_eq sound.keep (sound.length_lt small) start stop with ⟨_, _, _, _, found, _⟩ | ⟨_, _, failed⟩
    · rw [found] at checked
      cases checked
    · rw [failed] at checked
      cases checked
      rfl
  marked := by
    intro offset
    rw [sound.keep.bytes]
    exact isMarkedAt_eq (sound.length_lt small) offset
  address := sound.address small
  values := by
    obtain ⟨v, taken, keep⟩ := sound.values
    have whole := sound.length_lt small
    have visible : p.arguments.bytes.length < Bytes.limit := by
      rw [PacketBuffer.arguments, List.length_take]
      omega
    have short : p.address.length < Bytes.limit := by
      rw [PacketBuffer.address, List.length_take, List.length_drop]
      omega
    exact ⟨v, taken, keep.safe visible, Values.writeMessage_eq (m := p.message) keep visible short⟩

/-- After any run of operations, with any numbers for lengths and places, what was found lies within the
buffer, and no sum, difference, product, slice or place was out of bounds on the way, nor is one in whatever is
asked of the buffer next. Neither is there one in the reading of bundles, from any bytes and with any cursor. -/
theorem run_safe {capacity : Nat} (room : capacity < Bytes.limit) {operations : List Operation}
    (fit : ∀ operation ∈ operations, operation.Fits (PacketBuffer.new capacity).capacity) :
    (∃ b, (new capacity).run operations = .ok b ∧ b.Safe ((PacketBuffer.new capacity).run operations)) ∧
      ∀ bytes : Bytes, bytes.length < Bytes.limit →
        (∀ offset, isMarkedAt bytes offset = .ok (Bundle.isMarkedAt bytes offset)) ∧
        (∀ start stop, openBundle bytes start stop = .ok (Bundle.open? bytes start stop)) ∧
        ∀ c : Bundle.Cursor, c.stop < 2 ^ 64 → next bytes c = .ok (c.next? bytes) := by
  have small : (PacketBuffer.new capacity).capacity < Bytes.limit := by
    rw [PacketBuffer.capacity_new]
    split
    · decide
    · exact room
  obtain ⟨b, checked, sound⟩ := (sound_new capacity).run small fit
  refine ⟨⟨b, checked, sound.safe small⟩, fun bytes short => ⟨isMarkedAt_eq short, openBundle_eq short, ?_⟩⟩
  intro c word
  exact next_eq word

/-- A text and half a blob are found, nothing is found elsewhere, and then other tags are led astray. -/
def scattering : List Operation :=
  [.write ([47, 97, 0, 0, 44, 115, 98, 0, 104, 105, 0, 0, 255, 255, 255, 255] ++ Bytes.zeros 240), .parse 16,
    .parseAt 9 3, .readTags [0, 44, 100, 109] 1, .locate (2 ^ 64 - 1)]

theorem run_safe_scattering :
    let p := (PacketBuffer.new 256).run scattering
    (∀ operation ∈ scattering, operation.Fits (PacketBuffer.new 256).capacity) ∧
      p.table.tags = [.float64, .midi] ∧ p.table.offsets = [2 ^ 64 - 1, 2 ^ 64 - 1] ∧ p.address = [47, 97] ∧
      ∃ b, (new 256).run scattering = .ok b ∧ b.Safe p := by
  have fit : ∀ operation ∈ scattering, operation.Fits (PacketBuffer.new 256).capacity := by decide +kernel
  obtain ⟨safe, _⟩ := run_safe (by decide) fit
  exact ⟨fit, by decide +kernel, by decide +kernel, by decide +kernel, safe⟩

end Buffer

end Strict

end OSC
