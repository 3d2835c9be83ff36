import OSC.Binary.Number
import OSC.Padding
import OSC.Tag
import OSC.Time

namespace OSC

/-- Eight bits each of red, green, blue and opacity. -/
structure Color where
  red : UInt8
  green : UInt8
  blue : UInt8
  alpha : UInt8
  deriving DecidableEq

namespace Color

/-- The color whose first channel is in the highest byte. -/
def ofNat : Nat → Color := Bytes.four mk

def toBytes (c : Color) : Bytes := [c.red, c.green, c.blue, c.alpha]

/-- The same bytes read from the other end; some senders put opacity first. -/
def reversed (c : Color) : Color := ⟨c.alpha, c.blue, c.green, c.red⟩

def text (c : Color) : String :=
  s!"RGBA({c.red.toNat}, {c.green.toNat}, {c.blue.toNat}, {c.alpha.toNat})"

theorem ofNat_toBytes (c : Color) : ofNat (Bytes.toNat c.toBytes) = c :=
  Bytes.four_toNat mk c.red c.green c.blue c.alpha

end Color

/-- A MIDI message of at most two data bytes; `portId` tells where it belongs. -/
structure Midi where
  portId : UInt8
  status : UInt8
  data1 : UInt8
  data2 : UInt8
  deriving DecidableEq

namespace Midi

/-- The message whose `portId` is in the highest byte. -/
def ofNat : Nat → Midi := Bytes.four mk

def toBytes (m : Midi) : Bytes := [m.portId, m.status, m.data1, m.data2]

def text (m : Midi) : String :=
  s!"MIDI({m.portId.toNat}, {m.status.toNat}, {m.data1.toNat}, {m.data2.toNat})"

theorem ofNat_toBytes (m : Midi) : ofNat (Bytes.toNat m.toBytes) = m :=
  Bytes.four_toNat mk m.portId m.status m.data1 m.data2

end Midi

/-- A decoded argument. Strings and symbols hold their bytes without the terminator. -/
inductive Argument
  | int32 (value : Int32)
  | float32 (value : Single)
  | string (bytes : Bytes)
  | blob (bytes : Bytes)
  | int64 (value : Int64)
  | float64 (value : Double)
  | timeTag (value : TimeTag)
  | midi (value : Midi)
  | color (value : Color)
  | char (value : Char)
  | bool (value : Bool)
  | nil
  | infinitum
  | arrayOpen
  | arrayClose
  deriving DecidableEq

/-- Text, a terminator, and zeros up to a multiple of four. -/
def paddedText (bytes : Bytes) : Bytes :=
  bytes ++ Bytes.zeros (paddedLength bytes.length - bytes.length)

/-- The low 32 bits of the length, the content, and zeros up to a multiple of four. -/
def paddedBlob (bytes : Bytes) : Bytes :=
  Bytes.ofNat 4 bytes.length ++ bytes ++ Bytes.zeros (align4 bytes.length - bytes.length)

namespace Argument

/-- The tag to report for the argument; a symbol counts as a string. -/
def tag : Argument → Tag
  | int32 _ => .int32
  | float32 _ => .float32
  | string _ => .string
  | blob _ => .blob
  | int64 _ => .int64
  | float64 _ => .float64
  | timeTag _ => .timeTag
  | midi _ => .midi
  | color _ => .color
  | char _ => .char
  | bool value => .bool value
  | nil => .nil
  | infinitum => .infinitum
  | arrayOpen => .arrayOpen
  | arrayClose => .arrayClose

/-- A character in a message is an ASCII code; any other is sent as a question mark. -/
def asciiCode (c : Char) : Nat := if c.toNat < 0x80 then c.toNat else '?'.toNat

/-- The bytes of the value, of which some types have none. -/
def encode : Argument → Bytes
  | int32 value => Bytes.ofNat 4 value.toUInt32.toNat
  | float32 value => Bytes.ofNat 4 value.toNat
  | string bytes => paddedText bytes
  | blob bytes => paddedBlob bytes
  | int64 value => Bytes.ofNat 8 value.toUInt64.toNat
  | float64 value => Bytes.ofNat 8 value.toNat
  | timeTag value => value.toBytes
  | midi value => value.toBytes
  | color value => value.toBytes
  | char value => Bytes.ofNat 4 (asciiCode value)
  | bool _ | nil | infinitum | arrayOpen | arrayClose => []

end Argument

end OSC
