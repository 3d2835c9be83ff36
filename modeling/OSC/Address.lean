import OSC.Error

namespace OSC.Address

/-- The byte that opens an address. -/
def slash : UInt8 := 47

/-- Length of the terminated address at `offset`, without its terminator. -/
def length (bytes : Bytes) (offset : Nat) : Except Error Nat :=
  if bytes[offset]? = some slash then
    match bytes.nulAt? (offset + 1) with
    | some rest => .ok (rest + 1)
    | none => .error .malformedAddress
  else .error .malformedAddress

/-- Characters that have a meaning in address patterns or in packets. -/
def reserved : List Char := [' ', '#', '*', ',', '?', '[', ']', '{', '}']

/-- Reserved characters that not even a pattern may hold. -/
def forbidden : List Char := [' ', '#', ',']

def isLiteral (address : String) : Bool :=
  address.toList.head? == some '/' && !address.toList.any (· ∈ reserved)

inductive Kind
  | invalid
  | literal
  | pattern
  deriving DecidableEq

def Kind.name : Kind → String
  | invalid => "Invalid"
  | literal => "Address"
  | pattern => "Pattern"

def kind (address : String) : Kind :=
  if address.toList.head? ≠ some '/' then .invalid
  else if !address.toList.any (· ∈ reserved) then .literal
  else if address.toList.any (· ∈ forbidden) then .invalid
  else .pattern

end OSC.Address
