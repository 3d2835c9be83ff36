import OSC.Bytes

namespace OSC

/-- A span of time; at least 10^9 nanoseconds stand for whole seconds. -/
structure Span where
  seconds : Nat
  nanos : Nat
  deriving DecidableEq

namespace Span

def normalize (s : Span) : Span := ⟨s.seconds + s.nanos / 10 ^ 9, s.nanos % 10 ^ 9⟩

end Span

/-- A point on the wall clock, told from the start of 1970. -/
inductive Instant
  | after (span : Span)
  | before (span : Span)
  deriving DecidableEq

/-- The wall clock counts whole seconds, rounded down, in a signed 64-bit word. -/
def Instant.isOnClock : Instant → Bool
  | after span => span.normalize.seconds < 2 ^ 63
  | before span =>
    let s := span.normalize
    s.seconds < 2 ^ 63 || s.seconds == 2 ^ 63 && s.nanos == 0

/-- Seconds since the start of 1900 and a fraction of a second in units of 2^-32 s. -/
structure TimeTag where
  seconds : UInt32
  fraction : UInt32
  deriving DecidableEq

namespace TimeTag

/-- The tag that asks for execution on receipt. -/
def immediately : TimeTag := ⟨0, 1⟩

def ofNat (bits : Nat) : TimeTag := ⟨UInt32.ofNat (bits / 2 ^ 32), UInt32.ofNat bits⟩

def toNat (t : TimeTag) : Nat := t.seconds.toNat * 2 ^ 32 + t.fraction.toNat

def toBytes (t : TimeTag) : Bytes := Bytes.ofNat 8 t.toNat

/-- Seconds from the start of 1900 to the start of 1970. -/
def epochOffset : Nat := 2208988800

/-- The fraction in whole nanoseconds, rounded down. -/
def nanos (t : TimeTag) : Nat := t.fraction.toNat * 10 ^ 9 / 2 ^ 32

/-- Time since the start of 1970; of an earlier tag only the part below a second is left. -/
def toUnix (t : TimeTag) : Span := ⟨t.seconds.toNat - epochOffset, t.nanos⟩

/-- The tag of a time since the start of 1970, rounded down; seconds wrap round after 2^32. -/
def ofUnix (s : Span) : TimeTag :=
  ⟨UInt32.ofNat (s.seconds + epochOffset), UInt32.ofNat (s.nanos * 2 ^ 32 / 10 ^ 9)⟩

/-- Times before 1970 are taken as its start. -/
def ofInstant : Instant → TimeTag
  | .after span => ofUnix span.normalize
  | .before _ => ofUnix ⟨0, 0⟩

/-- Tags compare as the numbers of their 64 bits. -/
def le (t u : TimeTag) : Bool := t.toNat ≤ u.toNat

def sort (ts : List TimeTag) : List TimeTag := ts.mergeSort le

/-- Decimal seconds with nine places. -/
def text (t : TimeTag) : String :=
  let digits := toString t.nanos
  toString t.seconds.toNat ++ "." ++ String.ofList (List.replicate (9 - digits.length) '0') ++ digits

end TimeTag

end OSC
