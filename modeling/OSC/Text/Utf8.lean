import OSC.Bytes

namespace OSC.Utf8

def encodeChar (c : Char) : Bytes :=
  let n := c.toNat
  let tail (k : Nat) : Nat := 0x80 + n / 64 ^ k % 64
  if n < 0x80 then [n].map UInt8.ofNat
  else if n < 0x800 then [0xC0 + n / 64, tail 0].map UInt8.ofNat
  else if n < 0x10000 then [0xE0 + n / 64 ^ 2, tail 1, tail 0].map UInt8.ofNat
  else [0xF0 + n / 64 ^ 3, tail 2, tail 1, tail 0].map UInt8.ofNat

def encode (text : List Char) : Bytes := text.flatMap encodeChar

/-- What stands at the front of some bytes: a character, or as many bytes as could still begin one,
which another byte (`broken`) or the end of the bytes (`cut`) keeps from being completed. -/
inductive Piece
  | char (c : Char) (size : Nat)
  | broken (size : Nat)
  | cut (size : Nat)

/-- The number of bytes in a piece, of which there is at least one. -/
def Piece.size : Piece → Nat
  | .char _ size | .broken size | .cut size => size + 1

/-- Reads the `owed` bytes that complete a character of which `size + 1` bytes gave `bits`. The first of
them lies between `low` and `high`, the others between `0x80` and `0xBF`. -/
def tail : (owed low high bits size : Nat) → Bytes → Piece
  | 0, _, _, bits, size, _ => .char (Char.ofNat bits) size
  | _ + 1, _, _, _, size, [] => .cut size
  | owed + 1, low, high, bits, size, b :: rest =>
    if low ≤ b.toNat ∧ b.toNat ≤ high then
      tail owed 0x80 0xBF (bits * 64 + (b.toNat - 0x80)) (size + 1) rest
    else .broken size

/-- The piece that begins with byte `b`. The bounds on the second byte keep out longer forms of short
characters, surrogates, and numbers past the last code point. -/
def piece (b : Nat) (rest : Bytes) : Piece :=
  if b < 0x80 then .char (Char.ofNat b) 0
  else if b < 0xC2 then .broken 0
  else if b < 0xE0 then tail 1 0x80 0xBF (b - 0xC0) 0 rest
  else if b < 0xF0 then
    tail 2 (if b = 0xE0 then 0xA0 else 0x80) (if b = 0xED then 0x9F else 0xBF) (b - 0xE0) 0 rest
  else if b < 0xF5 then
    tail 3 (if b = 0xF0 then 0x90 else 0x80) (if b = 0xF4 then 0x8F else 0xBF) (b - 0xF0) 0 rest
  else .broken 0

theorem Piece.size_pos (p : Piece) : 0 < p.size := by
  cases p <;> exact Nat.succ_pos _

def pieces : Bytes → List Piece
  | [] => []
  | b :: rest =>
    piece b.toNat rest :: pieces ((b :: rest).drop (piece b.toNat rest).size)
termination_by bytes => bytes.length
decreasing_by
  have := (piece b.toNat rest).size_pos
  simp only [List.length_drop, List.length_cons]
  omega

/-- Why bytes are no text: the length of the longest valid beginning, and how many bytes after it form
no character; `none` where the bytes end within one. -/
structure Fault where
  valid : Nat
  broken? : Option Nat
  deriving DecidableEq

def Fault.message (fault : Fault) : String :=
  match fault.broken? with
  | some size => s!"invalid utf-8 sequence of {size} bytes from index {fault.valid}"
  | none => s!"incomplete utf-8 byte sequence from index {fault.valid}"

/-- The characters of pieces that begin `valid` bytes into a text, if they are all characters. -/
def chars (valid : Nat) : List Piece → Except Fault (List Char)
  | [] => .ok []
  | .char c size :: rest => (chars (valid + size + 1) rest).map (c :: ·)
  | .broken size :: _ => .error ⟨valid, some (size + 1)⟩
  | .cut _ :: _ => .error ⟨valid, none⟩

def decode (bytes : Bytes) : Except Fault (List Char) := chars 0 (pieces bytes)

def Piece.lossy : Piece → Char
  | .char c _ => c
  | .broken _ | .cut _ => '\uFFFD'

/-- The text in which one replacement character stands for each piece that is no character. -/
def decodeLossy (bytes : Bytes) : List Char := (pieces bytes).map Piece.lossy

end OSC.Utf8
