import OSC.Bytes

namespace OSC

/-- Types of arguments. A message's type tag string names one for each of its arguments. -/
inductive Tag
  | int32
  | float32
  | string
  | blob
  | int64
  | float64
  | timeTag
  | midi
  | color
  | char
  | bool (value : Bool)
  | nil
  | infinitum
  | arrayOpen
  | arrayClose
  | symbol
  deriving DecidableEq

namespace Tag

def toChar : Tag → Char
  | int32 => 'i'
  | float32 => 'f'
  | string => 's'
  | blob => 'b'
  | int64 => 'h'
  | float64 => 'd'
  | timeTag => 't'
  | midi => 'm'
  | color => 'r'
  | char => 'c'
  | bool true => 'T'
  | bool false => 'F'
  | nil => 'N'
  | infinitum => 'I'
  | arrayOpen => '['
  | arrayClose => ']'
  | symbol => 'S'

def toByte (tag : Tag) : UInt8 := UInt8.ofNat tag.toChar.toNat

def all : List Tag :=
  [int32, float32, string, blob, int64, float64, timeTag, midi, color, char, bool true, bool false,
    nil, infinitum, arrayOpen, arrayClose, symbol]

def ofByte? (byte : UInt8) : Option Tag := all.find? (·.toByte == byte)

/-- The name under which messages to people mention the type. -/
def name : Tag → String
  | int32 => "Int32"
  | float32 => "Float32"
  | string => "String"
  | blob => "Blob"
  | int64 => "Int64"
  | float64 => "Float64"
  | timeTag => "TimeTag"
  | midi => "Midi"
  | color => "Color32"
  | char => "AsciiChar32"
  | bool true => "True"
  | bool false => "False"
  | nil => "Nil"
  | infinitum => "Infinitum"
  | arrayOpen => "ArrayStart"
  | arrayClose => "ArrayEnd"
  | symbol => "AltTypeString"

/-- Bytes that a value of this type takes, unless the value itself decides. -/
def width? : Tag → Option Nat
  | int32 | float32 | color | char | midi => some 4
  | int64 | float64 | timeTag => some 8
  | string | symbol | blob => none
  | bool _ | nil | infinitum | arrayOpen | arrayClose => some 0

def isNumeric : Tag → Bool
  | int32 | float32 | int64 | float64 => true
  | _ => false

/-- The byte that opens a type tag string. -/
def comma : UInt8 := 44

/-- The padded type tag string of a message with this one argument. -/
def alone (tag : Tag) : Bytes := [comma, tag.toByte, 0, 0]

/-- The tags at the front of the bytes, up to the first byte that is no tag. -/
def run : Bytes → List Tag
  | [] => []
  | b :: rest =>
    match ofByte? b with
    | some tag => tag :: run rest
    | none => []

theorem mem_all (tag : Tag) : tag ∈ all := by
  rcases tag with _ | _ | _ | _ | _ | _ | _ | _ | _ | _ | (_ | _) | _ | _ | _ | _ | _ <;> decide

theorem ofByte_toByte (tag : Tag) : ofByte? tag.toByte = some tag := by
  have each : ∀ t ∈ all, ofByte? t.toByte = some t := by decide
  exact each tag tag.mem_all

theorem toByte_of_ofByte {byte : UInt8} {tag : Tag} (known : ofByte? byte = some tag) :
    tag.toByte = byte := by
  simpa using List.find?_some known

theorem ofByte_zero : ofByte? 0 = none := by decide

end Tag

end OSC
