import OSC.PacketBuffer
import OSC.Blob

namespace OSC

/-- A packet in the making, and how texts are put into it. -/
structure Writer where
  encoding : Encoding
  bytes : Bytes
  deriving DecidableEq

/-- A comma and the tags, as padded text. -/
def tagString (tags : List Tag) : Bytes := paddedText (Tag.comma :: tags.map Tag.toByte)

namespace Writer

def new (encoding : Encoding) : Writer := ⟨encoding, []⟩

def reset (w : Writer) : Writer := { w with bytes := [] }

def append (w : Writer) (bytes : Bytes) : Writer := { w with bytes := w.bytes ++ bytes }

def argument (w : Writer) (a : Argument) : Writer := w.append a.encode

def text (w : Writer) (text : String) : Writer := w.append (paddedText (w.encoding.encode text))

/-- Text that is encoded already. -/
def handle (w : Writer) (bytes : Bytes) : Writer := w.append (paddedText bytes)

def tags (w : Writer) (tags : List Tag) : Writer := w.append (tagString tags)

def floats (w : Writer) (xs : List Single) : Writer :=
  w.append (xs.flatMap fun x => (Argument.float32 x).encode)

/-- Begins a message whose padded type tag string is at hand. -/
def start (w : Writer) (address : String) (tags : Bytes) : Writer := (w.reset.text address).append tags

/-- Appends arguments up to the first that is an error. -/
def arguments (w : Writer) : List (Except Error Argument) → Writer × Except Error Unit
  | [] => (w, .ok ())
  | .ok a :: rest => (w.argument a).arguments rest
  | .error e :: _ => (w, .error e)

/-- Writes a message anew. Where an argument cannot be decoded the writer keeps what came before it. -/
def message (w : Writer) (m : Message) : Writer × Except Error Unit :=
  ((w.reset.handle m.address).tags m.arguments.table.tags).arguments m.arguments.toList

def bundle (w : Writer) (time : TimeTag) : Writer :=
  (w.reset.append Bundle.marker).argument (.timeTag time)

/-- Leaves room for the size of an element of a bundle, and gives the place of it. -/
def beginElement (w : Writer) : Writer × Nat := (w.append (Bytes.zeros 4), w.bytes.length)

/-- Fills in the size of the element that was begun at `mark`, if there is room for it. -/
def endElement? (w : Writer) (mark : Nat) : Option Writer :=
  if mark + 4 ≤ w.bytes.length then
    some { w with
      bytes := w.bytes.take mark ++ Bytes.ofNat 4 (w.bytes.length - mark - 4) ++
        w.bytes.drop (mark + 4) }
  else none

/-- Takes the packet out and leaves the writer empty. -/
def take (w : Writer) : Writer × Bytes := (w.reset, w.bytes)

end Writer

end OSC
