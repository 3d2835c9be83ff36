import OSC.Writer

namespace OSC

/-- What can be sent in one call. -/
inductive Payload
  | empty
  | int (value : Int32)
  | long (value : Int64)
  | float (value : Single)
  | double (value : Double)
  | text (value : String)
  | blob (content : Bytes)
  | pair (x y : Single)
  | triple (x y z : Single)
  | color (value : Color)
  | midi (value : Midi)
  | char (value : Char)
  | bool (value : Bool)
  | nil
  | infinitum
  | timeTag (value : TimeTag)

/-- A sender to one destination. Its writer holds the packet sent last. -/
structure Client where
  writer : Writer

namespace Client

def new (encoding : Encoding) : Client := ⟨.new encoding⟩

/-- The padded type tag string of no tags. -/
def noTags : Bytes := [Tag.comma, 0, 0, 0]

/-- The padded type tag string of two numbers. -/
def pairTags : Bytes := [Tag.comma, Tag.float32.toByte, Tag.float32.toByte, 0]

/-- Makes the message with this address and payload, and sends it. -/
def send (c : Client) (address : String) (payload : Payload) : Client :=
  let one (a : Argument) : Writer := (c.writer.start address a.tag.alone).argument a
  match payload with
  | .empty => ⟨c.writer.start address noTags⟩
  | .int value => ⟨one (.int32 value)⟩
  | .long value => ⟨one (.int64 value)⟩
  | .float value => ⟨one (.float32 value)⟩
  | .double value => ⟨one (.float64 value)⟩
  | .text value => ⟨(c.writer.start address Tag.string.alone).text value⟩
  | .blob content => ⟨one (.blob content)⟩
  | .pair x y => ⟨(c.writer.start address pairTags).floats [x, y]⟩
  | .triple x y z =>
    ⟨((c.writer.reset.text address).tags [.float32, .float32, .float32]).floats [x, y, z]⟩
  | .color value => ⟨one (.color value)⟩
  | .midi value => ⟨one (.midi value)⟩
  | .char value => ⟨one (.char value)⟩
  | .bool value => ⟨one (.bool value)⟩
  | .nil => ⟨one .nil⟩
  | .infinitum => ⟨one .infinitum⟩
  | .timeTag value => ⟨one (.timeTag value)⟩

/-- The packet sent last. -/
def sent (c : Client) : Bytes := c.writer.bytes

end Client

end OSC
