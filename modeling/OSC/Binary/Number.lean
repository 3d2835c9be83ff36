import OSC.Bytes
import OSC.Binary.Decimal

namespace OSC

/-- A number in the 32-bit binary format, told apart by its bits. -/
structure Single where
  bits : UInt32
  deriving DecidableEq

/-- A number in the 64-bit binary format, told apart by its bits. -/
structure Double where
  bits : UInt64
  deriving DecidableEq

namespace Single

open Binary

def ofNat (bits : Nat) : Single := ⟨UInt32.ofNat bits⟩

def toNat (x : Single) : Nat := x.bits.toNat

def datum (x : Single) : Datum := Format.single.datum x.toNat

def text (x : Single) : String := Format.single.text x.toNat

def ofInt (n : Int) : Single := ofNat (Format.single.ofInt n)

def toInt32 (x : Single) : Int32 := Int32.ofInt (x.datum.truncate (-2 ^ 31) (2 ^ 31 - 1))

def toInt64 (x : Single) : Int64 := Int64.ofInt (x.datum.truncate (-2 ^ 63) (2 ^ 63 - 1))

def toDouble (x : Single) : Double := ⟨UInt64.ofNat (Format.double.ofDatum x.datum)⟩

end Single

namespace Double

open Binary

def ofNat (bits : Nat) : Double := ⟨UInt64.ofNat bits⟩

def toNat (x : Double) : Nat := x.bits.toNat

def datum (x : Double) : Datum := Format.double.datum x.toNat

def text (x : Double) : String := Format.double.text x.toNat

def ofInt (n : Int) : Double := ofNat (Format.double.ofInt n)

def toInt64 (x : Double) : Int64 := Int64.ofInt (x.datum.truncate (-2 ^ 63) (2 ^ 63 - 1))

end Double

end OSC
