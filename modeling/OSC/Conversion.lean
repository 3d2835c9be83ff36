import OSC.Arguments
import OSC.Text.Utf8

namespace OSC

/-- A type that some arguments can be read as, and its name in errors. -/
structure Conversion (α : Type) where
  expected : String
  convert? : Argument → Option α

namespace Conversion

def int : Conversion Int32 where
  expected := "i32"
  convert?
    | .int32 n => some n
    | .float32 x => some x.toInt32
    | .char c => some (Int32.ofNat c.toNat)
    | .bool b => some (if b then 1 else 0)
    | _ => none

def long : Conversion Int64 where
  expected := "i64"
  convert?
    | .int32 n => some n.toInt64
    | .int64 n => some n
    | .float32 x => some x.toInt64
    | .float64 x => some x.toInt64
    | .char c => some (Int64.ofNat c.toNat)
    | .bool b => some (if b then 1 else 0)
    | _ => none

def float : Conversion Single where
  expected := "f32"
  convert?
    | .int32 n => some (.ofInt n.toInt)
    | .float32 x => some x
    | _ => none

def double : Conversion Double where
  expected := "f64"
  convert?
    | .int32 n => some (.ofInt n.toInt)
    | .int64 n => some (.ofInt n.toInt)
    | .float32 x => some x.toDouble
    | .float64 x => some x
    | _ => none

/-- A number that is not negative reads as true. -/
def bool : Conversion Bool where
  expected := "bool"
  convert?
    | .bool b => some b
    | .int32 n => some (0 ≤ n)
    | _ => none

def text : Conversion String where
  expected := "string"
  convert?
    | .string bytes => some (String.ofList (Utf8.decodeLossy bytes))
    | .int32 n => some (toString n.toInt)
    | .int64 n => some (toString n.toInt)
    | .float32 x => some x.text
    | .float64 x => some x.text
    | .char c => some (String.singleton c)
    | .color c => some c.text
    | .midi m => some m.text
    | .timeTag t => some t.text
    | .bool b => some (Tag.bool b).name
    | .nil => some Tag.nil.name
    | .infinitum => some Tag.infinitum.name
    | .blob _ | .arrayOpen | .arrayClose => none

def blob : Conversion Bytes where
  expected := "blob"
  convert?
    | .blob bytes => some bytes
    | _ => none

def handle : Conversion Bytes where
  expected := "string handle"
  convert?
    | .string bytes => some bytes
    | .blob bytes => some bytes
    | _ => none

def char : Conversion Char where
  expected := "char"
  convert?
    | .char c => some c
    | _ => none

def color : Conversion Color where
  expected := "Color32"
  convert?
    | .color c => some c
    | _ => none

def midi : Conversion Midi where
  expected := "MIDI"
  convert?
    | .midi m => some m
    | _ => none

def timeTag : Conversion TimeTag where
  expected := "timestamp"
  convert?
    | .timeTag t => some t
    | _ => none

end Conversion

/-- A type whose values take a fixed number of bytes. -/
structure FixedWidth (α : Type) where
  width : Nat
  ofNat : Nat → α

namespace FixedWidth

def int : FixedWidth Int32 := ⟨4, Arguments.int32OfNat⟩

def long : FixedWidth Int64 := ⟨8, Arguments.int64OfNat⟩

def float : FixedWidth Single := ⟨4, .ofNat⟩

def double : FixedWidth Double := ⟨8, .ofNat⟩

def char : FixedWidth Char := ⟨4, Arguments.charOfCode⟩

def color : FixedWidth Color := ⟨4, .ofNat⟩

def midi : FixedWidth Midi := ⟨4, .ofNat⟩

def timeTag : FixedWidth TimeTag := ⟨8, .ofNat⟩

end FixedWidth

namespace Arguments

variable {α : Type}

/-- The argument, converted if its type allows it. -/
def read (a : Arguments) (c : Conversion α) (index : Nat) : Except Error α := do
  let argument ← a.get index
  match c.convert? argument with
  | some value => .ok value
  | none => .error (.typeMismatch index argument.tag c.expected)

/-- The value whose bytes are at the offset in a slot, whatever its tag, recorded or not. There is none
without such a slot, nor where the bytes are not all there. -/
def readRaw? (a : Arguments) (f : FixedWidth α) (index : Nat) : Option α := do
  let offset ← a.table.slots[index]?
  (a.bytes.word? offset f.width).map f.ofNat

end Arguments

end OSC
