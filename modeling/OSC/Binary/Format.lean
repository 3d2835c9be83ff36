import OSC.Bytes

namespace OSC.Binary

/-- Field widths of a binary floating-point format: below the sign an exponent, then a fraction. -/
structure Format where
  exponentBits : Nat
  fractionBits : Nat

/-- What the bits of a floating-point number stand for; `finite` is ± significand * 2 ^ exponent. -/
inductive Datum
  | nan
  | infinite (negative : Bool)
  | finite (negative : Bool) (significand : Nat) (exponent : Int)

namespace Format

def single : Format := ⟨8, 23⟩

def double : Format := ⟨11, 52⟩

def bias (f : Format) : Nat := 2 ^ (f.exponentBits - 1) - 1

/-- Exponent of the least significant bit of the numbers nearest to zero. -/
def leastExponent (f : Format) : Int := 1 - f.bias - f.fractionBits

def isNegative (f : Format) (bits : Nat) : Bool :=
  bits / 2 ^ (f.exponentBits + f.fractionBits) % 2 == 1

def exponentField (f : Format) (bits : Nat) : Nat := bits / 2 ^ f.fractionBits % 2 ^ f.exponentBits

def fractionField (f : Format) (bits : Nat) : Nat := bits % 2 ^ f.fractionBits

def datum (f : Format) (bits : Nat) : Datum :=
  let exponent := f.exponentField bits
  let fraction := f.fractionField bits
  if exponent = 2 ^ f.exponentBits - 1 then
    if fraction = 0 then .infinite (f.isNegative bits) else .nan
  else if exponent = 0 then .finite (f.isNegative bits) fraction f.leastExponent
  else .finite (f.isNegative bits) (2 ^ f.fractionBits + fraction) (f.leastExponent + exponent - 1)

def sign (f : Format) (negative : Bool) : Nat :=
  if negative then 2 ^ (f.exponentBits + f.fractionBits) else 0

/-- Bits of infinity, and above it those of the numbers that are none. -/
def infinity (f : Format) : Nat := (2 ^ f.exponentBits - 1) * 2 ^ f.fractionBits

/-- A quotient rounded to the nearest integer, from halfway to the even one. -/
def roundDiv (n d : Nat) : Nat :=
  let low := n / d
  let rest := 2 * (n % d)
  if rest < d ∨ rest = d ∧ low % 2 = 0 then low else low + 1

/-- The bits of m * 2 ^ q, rounded to nearest with ties to even. A significand that rounds up to the
next power of two carries into the exponent field. For values in the normal range of the format. -/
def nearest (f : Format) (m : Nat) (q : Int) : Nat :=
  if m = 0 then 0
  else
    let top := m.log2
    let significand :=
      if top ≤ f.fractionBits then m * 2 ^ (f.fractionBits - top)
      else roundDiv m (2 ^ (top - f.fractionBits))
    (top + q + f.bias - 1).toNat * 2 ^ f.fractionBits + significand

def ofDatum (f : Format) : Datum → Nat
  | .nan => f.infinity + 2 ^ (f.fractionBits - 1)
  | .infinite negative => f.sign negative + f.infinity
  | .finite negative m q => f.sign negative + f.nearest m q

def ofInt (f : Format) (n : Int) : Nat := f.sign (n < 0) + f.nearest n.natAbs 0

end Format

namespace Datum

/-- The integer part of m * 2 ^ q. -/
def wholePart (m : Nat) (q : Int) : Nat := if 0 ≤ q then m * 2 ^ q.toNat else m / 2 ^ (-q).toNat

/-- Rounded toward zero and held between `low` and `high`; what is no number counts as zero. -/
def truncate (low high : Int) : Datum → Int
  | nan => 0
  | infinite negative => if negative then low else high
  | finite negative m q =>
    let whole : Int := wholePart m q
    max low (min high (if negative then -whole else whole))

end Datum

end OSC.Binary
