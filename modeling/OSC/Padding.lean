import OSC.Bytes

namespace OSC

/-- The least multiple of four that is at least `n`. -/
def align4 (n : Nat) : Nat := (n + 3) / 4 * 4

/-- Length of a field holding `n` bytes of text, its terminator and padding to a multiple of four. -/
def paddedLength (n : Nat) : Nat := align4 (n + 1)

/-- `align4` where sizes are 64-bit words and a sum too great for one is no size. -/
def align4? (n : Nat) : Option Nat := if n + 3 < 2 ^ 64 then some (align4 n) else none

def paddedLength? (n : Nat) : Option Nat := if n + 4 < 2 ^ 64 then some (paddedLength n) else none

theorem align4_mod (n : Nat) : align4 n % 4 = 0 := by
  unfold align4
  omega

theorem le_align4 (n : Nat) : n ≤ align4 n := by
  unfold align4
  omega

theorem align4_lt (n : Nat) : align4 n < n + 4 := by
  unfold align4
  omega

theorem lt_paddedLength (n : Nat) : n < paddedLength n := le_align4 (n + 1)

theorem paddedLength_le (n : Nat) : paddedLength n ≤ n + 4 := by
  have := align4_lt (n + 1)
  unfold paddedLength
  omega

end OSC
