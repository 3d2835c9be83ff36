import OSC.Error
import OSC.Text.Utf8

/-! Byte strings as keys, equal when they hold the same bytes and hashed by length and last byte, and as texts. -/

namespace OSC

namespace Blob

/-- A step in feeding a hash function. -/
inductive Feed
  | size (n : Nat)
  | byte (b : UInt8)
  deriving DecidableEq

def feed (bytes : Bytes) : List Feed :=
  .size bytes.length :: (bytes.getLast?.map Feed.byte).toList

/-- A cheap 32-bit hash; equal byte strings have equal codes. -/
def code (bytes : Bytes) : Int32 :=
  Int32.ofNat bytes.length * 397 ^^^ Int32.ofNat ((bytes.getLast?.map UInt8.toNat).getD 0)

end Blob

/-- How texts become bytes. -/
inductive Encoding
  | ascii
  | utf8
  deriving DecidableEq

namespace Encoding

def isAscii (c : Char) : Bool := c.toNat < 0x80

/-- In ASCII a question mark stands for each character that it lacks. -/
def asciiByte (c : Char) : UInt8 := UInt8.ofNat (if isAscii c then c else '?').toNat

def encodeChars : Encoding → List Char → Bytes
  | ascii, text => text.map asciiByte
  | utf8, text => Utf8.encode text

def encode (e : Encoding) (text : String) : Bytes := e.encodeChars text.toList

/-- The text put behind what there is, in ASCII one character after another. -/
def encodeInto : Encoding → String → Bytes → Bytes
  | ascii, text, out => text.toList.foldl (fun out c => out ++ [asciiByte c]) out
  | utf8, text, out => out ++ text.toByteArray.data.toList

/-- The length of an encoded text, told from the text. -/
def encodedLength : Encoding → String → Nat
  | ascii, text => text.length
  | utf8, text => text.utf8ByteSize

/-- The text that encodes to the bytes, in UTF-8 also where a byte is not ASCII. -/
def decode (e : Encoding) (bytes : Bytes) : Except Error String :=
  if e = ascii ∧ ¬ bytes.all (· < 0x80) then .error (.encoding "non-ASCII byte in ASCII string")
  else
    match Utf8.decode bytes with
    | .ok text => .ok (String.ofList text)
    | .error fault => .error (.encoding ("invalid UTF-8 string: " ++ fault.message))

/-- The text that a byte string is shown as, whatever its bytes are. -/
def shown (bytes : Bytes) : String := String.ofList (Utf8.decodeLossy bytes)

end Encoding

end OSC
