import OSC.Address
import OSC.Arguments
import OSC.Bundle.Reader

namespace OSC

/-- A message as it stands in a buffer: its address, and its arguments. -/
structure Message where
  address : Bytes
  arguments : Arguments

/-- Room for one packet and what was last found in it. What a packet does not cover keeps the bytes of
the packets before it. -/
structure PacketBuffer where
  bytes : Bytes
  table : Table
  addressStart : Nat
  addressLength : Nat
  stop : Nat

namespace PacketBuffer

def defaultCapacity : Nat := 4096

/-- An empty buffer. Less than 256 bytes are too few; who asks for them gets the default. -/
def new (capacity : Nat) : PacketBuffer :=
  ⟨Bytes.zeros (if capacity < 256 then defaultCapacity else capacity), .empty, 0, 0, 0⟩

/-- An empty buffer, if one of that capacity can be had. -/
def new? (capacity : Nat) : Option PacketBuffer :=
  if capacity < Bytes.limit then some (new capacity) else none

def capacity (p : PacketBuffer) : Nat := p.bytes.length

def address (p : PacketBuffer) : Bytes := (p.bytes.drop p.addressStart).take p.addressLength

/-- The arguments found, none of whose bytes lie past the end of the message. -/
def arguments (p : PacketBuffer) : Arguments := ⟨p.bytes.take p.stop, p.table⟩

def message (p : PacketBuffer) : Message := ⟨p.address, p.arguments⟩

/-- Overwrites the buffer from `start` on with as much data as there is room for, and gives the place
where that ends. -/
def load (p : PacketBuffer) (start : Nat) (data : Bytes) : PacketBuffer × Nat :=
  let start := min start p.capacity
  let data := data.take (p.capacity - start)
  ({ p with bytes := p.bytes.take start ++ data ++ p.bytes.drop (start + data.length) },
    start + data.length)

/-- Finds the message that begins at `start` and ends no later than `stop`, and gives the length of its
address. Without one, all that was found before stays. -/
def parseAt (p : PacketBuffer) (start stop : Nat) : Except Error (PacketBuffer × Nat) := do
  let stop := min stop p.capacity
  let bytes := p.bytes.take stop
  let addressLength ← Address.length bytes start
  let tagsStart := start + paddedLength addressLength
  let (table, tagsLength) := p.table.readTags bytes tagsStart
  let valuesStart := tagsStart + paddedLength tagsLength
  pure (⟨p.bytes, table.locate bytes valuesStart, start, addressLength, stop⟩, addressLength)

def parse (p : PacketBuffer) (length : Nat) : Except Error (PacketBuffer × Nat) := p.parseAt 0 length

/-- Takes tags from other bytes; all else stays as it was. -/
def readTags (p : PacketBuffer) (bytes : Bytes) (start : Nat) : PacketBuffer × Nat :=
  let (table, length) := p.table.readTags bytes start
  ({ p with table }, length)

/-- Moves the arguments to `offset`; their sizes are read from the whole buffer. -/
def locate (p : PacketBuffer) (offset : Nat) : PacketBuffer :=
  { p with table := p.table.locate p.bytes offset }

def isBundleAt (p : PacketBuffer) (offset : Nat) : Bool := Bundle.isMarkedAt p.bytes offset

/-- What is found in each of some elements of a bundle, and the buffer after the last of them. -/
def readElements (p : PacketBuffer) :
    List (Except Bundle.Fault Extent) → List (Except Error Message) × PacketBuffer
  | [] => ([], p)
  | item :: rest =>
    let found :=
      match item with
      | .ok element => p.parseAt element.start element.stop
      | .error fault => .error fault.toError
    match found with
    | .ok (found, _) =>
      let (later, last) := readElements found rest
      (.ok found.message :: later, last)
    | .error e =>
      let (later, last) := readElements p rest
      (.error e :: later, last)

/-- The time tag of the bundle at `start`, which ends no later than `stop`, and what is found in its
elements. -/
def readBundle (p : PacketBuffer) (start stop : Nat) :
    Except Error (TimeTag × List (Except Error Message) × PacketBuffer) :=
  match Bundle.open? p.bytes start stop with
  | .ok (time, cursor) => .ok (time, p.readElements (cursor.items p.bytes))
  | .error fault => .error fault.toError

/-- The buffer after each message found in the elements of a bundle. Bundles among them are passed over,
and so is what is no message. -/
def unpackElements (p : PacketBuffer) : List Extent → List PacketBuffer
  | [] => []
  | element :: rest =>
    if p.isBundleAt element.start then unpackElements p rest
    else
      match p.parseAt element.start element.stop with
      | .ok (found, _) => found :: unpackElements found rest
      | .error _ => unpackElements p rest

/-- The buffer after each message found in a packet of `length` bytes. -/
def unpack (p : PacketBuffer) (length : Nat) : List PacketBuffer :=
  if p.isBundleAt 0 then
    match Bundle.open? p.bytes 0 length with
    | .ok (_, cursor) => p.unpackElements (cursor.elements p.bytes)
    | .error _ => []
  else
    match p.parse length with
    | .ok (found, _) => [found]
    | .error _ => []

end PacketBuffer

end OSC
