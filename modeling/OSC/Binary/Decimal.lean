import OSC.Binary.Format

namespace OSC.Binary

/-- A positive number and the ends of the interval of reals that round to it, counted in units of
`10 ^ (-places)`. -/
structure Interval where
  places : Nat
  value : Nat
  low : Nat
  high : Nat
  closed : Bool

namespace Interval

/-- Of m * 2 ^ q, which has to be positive. The ends lie halfway to the neighbours, and the one below a
power of two is half as far away as the one above. The ends belong to an even significand. -/
def around (f : Format) (m : Nat) (q : Int) : Interval :=
  let narrow := m == 2 ^ f.fractionBits && decide (f.leastExponent < q)
  let unit := if 2 ≤ q then 2 ^ (q - 2).toNat else 5 ^ (2 - q).toNat
  { places := (2 - q).toNat
    value := 4 * m * unit
    low := (if narrow then 4 * m - 1 else 4 * m - 2) * unit
    high := (4 * m + 2) * unit
    closed := m % 2 == 0 }

def contains (i : Interval) (n : Nat) : Bool :=
  if i.closed then i.low ≤ n && n ≤ i.high else i.low < n && n < i.high

/-- The multiple of `10 ^ digits` in the interval that is nearest to the value; of two equally near ones
the greater. -/
def onGrid? (i : Interval) (digits : Nat) : Option Nat :=
  let below := i.value / 10 ^ digits * 10 ^ digits
  let above := below + 10 ^ digits
  match i.contains below, i.contains above with
  | true, true => some (if 2 * i.value < below + above then below else above)
  | true, false => some below
  | false, true => some above
  | false, false => none

/-- The nearest point of the coarsest grid of powers of ten that has one in the interval. -/
def shortest (i : Interval) : Nat → Nat
  | 0 => i.value
  | digits + 1 => (i.onGrid? (digits + 1)).getD (shortest i digits)

end Interval

/-- `n / 10 ^ places` in positional notation, without zeros at the end of the fraction. -/
def positional (n places : Nat) : String :=
  let whole := toString (n / 10 ^ places)
  let digits := (Nat.toDigits 10 (n % 10 ^ places)).reverse
  let padded := digits ++ List.replicate (places - digits.length) '0'
  match (padded.dropWhile (· == '0')).reverse with
  | [] => whole
  | fraction => whole ++ "." ++ String.ofList fraction

/-- The fewest digits that read back as the same number of the format, never with an exponent. -/
def Format.text (f : Format) (bits : Nat) : String :=
  match f.datum bits with
  | .nan => "NaN"
  | .infinite negative => if negative then "-inf" else "inf"
  | .finite negative m q =>
    let sign := if negative then "-" else ""
    if m = 0 then sign ++ "0"
    else
      let i := Interval.around f m q
      sign ++ positional (i.shortest ((Nat.toDigits 10 i.value).length - 1)) i.places

end OSC.Binary
