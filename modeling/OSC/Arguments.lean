import OSC.Argument
import OSC.Error
import OSC.Table

namespace OSC

/-- The arguments of a message: bytes and the table that says what lies where in them. -/
structure Arguments where
  bytes : Bytes
  table : Table

namespace Arguments

/-- The big-endian number in the `width` bytes at `offset`. -/
def word (bytes : Bytes) (offset width : Nat) : Except Error Nat :=
  match bytes.word? offset width with
  | some n => .ok n
  | none => .error (.truncated offset width)

/-- The text from `offset` to its terminator. -/
def textAt (bytes : Bytes) (offset : Nat) : Except Error Bytes :=
  if bytes.length < offset then .error (.truncated offset 1)
  else
    match bytes.nulAt? offset with
    | some length => .ok ((bytes.drop offset).take length)
    | none => .error (.truncated offset (bytes.length - offset + 1))

/-- The content of the blob whose length is at `offset`. -/
def blobAt (bytes : Bytes) (offset : Nat) : Except Error Bytes := do
  let size ← word bytes offset 4
  match bytes.slice? (offset + 4) size with
  | some content => .ok content
  | none => .error (.truncated (offset + 4) size)

/-- The character with this code; a replacement character where there is none. -/
def charOfCode (code : Nat) : Char := if code.isValidChar then Char.ofNat code else '\uFFFD'

def int32OfNat (n : Nat) : Int32 := (UInt32.ofNat n).toInt32

def int64OfNat (n : Nat) : Int64 := (UInt64.ofNat n).toInt64

/-- The value at `offset`, of the type that the tag names. -/
def decodeAt (bytes : Bytes) (offset : Nat) : Tag → Except Error Argument
  | .int32 => (word bytes offset 4).map fun n => .int32 (int32OfNat n)
  | .float32 => (word bytes offset 4).map fun n => .float32 (.ofNat n)
  | .string | .symbol => (textAt bytes offset).map .string
  | .blob => (blobAt bytes offset).map .blob
  | .int64 => (word bytes offset 8).map fun n => .int64 (int64OfNat n)
  | .float64 => (word bytes offset 8).map fun n => .float64 (.ofNat n)
  | .timeTag => (word bytes offset 8).map fun n => .timeTag (.ofNat n)
  | .midi => (word bytes offset 4).map fun n => .midi (.ofNat n)
  | .color => (word bytes offset 4).map fun n => .color (.ofNat n)
  | .char => (word bytes offset 4).map fun n => .char (charOfCode n)
  | .bool value => .ok (.bool value)
  | .nil => .ok .nil
  | .infinitum => .ok .infinitum
  | .arrayOpen => .ok .arrayOpen
  | .arrayClose => .ok .arrayClose

def count (a : Arguments) : Nat := a.table.count

def tag (a : Arguments) (index : Nat) : Except Error Tag :=
  match a.table.tags[index]? with
  | some tag => .ok tag
  | none => .error (.indexOutOfRange index a.count)

def get (a : Arguments) (index : Nat) : Except Error Argument := do
  let tag ← a.tag index
  decodeAt a.bytes (a.table.slots.getD index 0) tag

def toList (a : Arguments) : List (Except Error Argument) := (List.range a.count).map a.get

def isNilOrInfinitum (a : Arguments) (index : Nat) : Except Error Bool :=
  (a.tag index).map fun tag => tag = .nil ∨ tag = .infinitum

end Arguments

end OSC
