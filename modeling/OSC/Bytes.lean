/-! Byte strings, and the numbers that they make. -/

namespace OSC

-- Mathlib takes powers of naturals by `Monoid.Pow`, which is its default with priority `high`. In this namespace they
-- are Lean's own, so that a definition made without Mathlib and a statement made with it speak of the same power.
attribute [scoped instance (high + 1)] instPowNat
attribute [default_instance high + 1] instPowNat

/-- Octets in the order in which they travel. -/
abbrev Bytes := List UInt8

namespace Bytes

/-- Byte strings are shorter than this. -/
def limit : Nat := 2 ^ 63

def zeros (n : Nat) : Bytes := List.replicate n 0

/-- The `width` bytes at `offset`, if all of them are there. -/
def slice? (bytes : Bytes) (offset width : Nat) : Option Bytes :=
  if offset + width ≤ bytes.length then some ((bytes.drop offset).take width) else none

/-- Distance from `offset` to the first zero byte at or after it. -/
def nulAt? (bytes : Bytes) (offset : Nat) : Option Nat :=
  (bytes.drop offset).findIdx? (· == 0)

/-- The lowest `8 * width` bits of `n`, most significant byte first. -/
def ofNat : (width n : Nat) → Bytes
  | 0, _ => []
  | width + 1, n => UInt8.ofNat (n / 256 ^ width) :: ofNat width n

/-- The number whose base-256 digits are the bytes, most significant first. -/
def toNat : Bytes → Nat
  | [] => 0
  | b :: rest => b.toNat * 256 ^ rest.length + toNat rest

/-- The big-endian number in the `width` bytes at `offset`. -/
def word? (bytes : Bytes) (offset width : Nat) : Option Nat :=
  (slice? bytes offset width).map toNat

theorem length_slice {bytes piece : Bytes} {offset width : Nat}
    (found : slice? bytes offset width = some piece) : piece.length = width := by
  unfold slice? at found
  split at found
  · cases found
    simp only [List.length_take, List.length_drop]
    omega
  · cases found

@[simp] theorem length_ofNat (width n : Nat) : (ofNat width n).length = width := by
  induction width with
  | zero => rfl
  | succ width ih => simp [ofNat, ih]

/-- What fits in the width is read back; the rest is gone. -/
theorem toNat_ofNat (width n : Nat) : toNat (ofNat width n) = n % 256 ^ width := by
  induction width with
  | zero => simp [ofNat, toNat, Nat.mod_one]
  | succ width ih =>
    have whole : n % (256 ^ width * 256) = n % 256 ^ width + 256 ^ width * (n / 256 ^ width % 256) :=
      Nat.mod_mul
    have byte : (UInt8.ofNat (n / 256 ^ width)).toNat = n / 256 ^ width % 256 := by simp
    rw [ofNat, toNat, ih, length_ofNat, byte, Nat.pow_succ, whole, Nat.mul_comm (256 ^ width),
      Nat.add_comm]

theorem toNat_lt (bytes : Bytes) : toNat bytes < 256 ^ bytes.length := by
  induction bytes with
  | nil => simp [toNat]
  | cons b rest ih =>
    have scaled : (b.toNat + 1) * 256 ^ rest.length ≤ 256 * 256 ^ rest.length :=
      Nat.mul_le_mul_right _ b.toNat_lt
    rw [Nat.add_mul, Nat.one_mul] at scaled
    rw [toNat, List.length_cons, Nat.pow_succ, Nat.mul_comm (256 ^ rest.length)]
    omega

theorem ofNat_toNat (bytes : Bytes) : ofNat bytes.length (toNat bytes) = bytes := by
  have low : ∀ (width n k : Nat), ofNat width (k * 256 ^ width + n) = ofNat width n := by
    intro width
    induction width with
    | zero => intro n k; rfl
    | succ width ih =>
      intro n k
      have shifted : k * 256 ^ (width + 1) + n = k * 256 * 256 ^ width + n := by
        rw [Nat.pow_succ, Nat.mul_comm (256 ^ width), Nat.mul_assoc]
      have head : (k * 256 * 256 ^ width + n) / 256 ^ width = n / 256 ^ width + k * 256 := by
        rw [Nat.add_comm, Nat.add_mul_div_right _ _ (Nat.pow_pos (by omega))]
      rw [ofNat, ofNat, shifted, ih, head]
      congr 1
      apply UInt8.toNat_inj.mp
      simp
  induction bytes with
  | nil => rfl
  | cons b rest ih =>
    have head : (b.toNat * 256 ^ rest.length + toNat rest) / 256 ^ rest.length = b.toNat := by
      rw [Nat.add_comm, Nat.add_mul_div_right _ _ (Nat.pow_pos (by omega)),
        Nat.div_eq_of_lt (toNat_lt rest), Nat.zero_add]
    rw [List.length_cons, ofNat, toNat, head, low, ih, UInt8.ofNat_toNat]

/-- What `make` makes of the four lowest bytes of a number, the highest of them first. -/
def four {α : Type} (make : UInt8 → UInt8 → UInt8 → UInt8 → α) (n : Nat) : α :=
  make (UInt8.ofNat (n / 2 ^ 24)) (UInt8.ofNat (n / 2 ^ 16)) (UInt8.ofNat (n / 2 ^ 8)) (UInt8.ofNat n)

/-- They are the four bytes that the number was made of. -/
theorem four_toNat {α : Type} (make : UInt8 → UInt8 → UInt8 → UInt8 → α) (a b c d : UInt8) :
    four make (toNat [a, b, c, d]) = make a b c d := by
  have number : toNat [a, b, c, d] = a.toNat * 2 ^ 24 + b.toNat * 2 ^ 16 + c.toNat * 2 ^ 8 + d.toNat := by
    simp only [toNat, List.length_cons, List.length_nil]
    omega
  have low (n : Nat) (byte : UInt8) (last : n % 256 = byte.toNat) : UInt8.ofNat n = byte := by
    apply UInt8.toNat_inj.mp
    rw [UInt8.toNat_ofNat', ← last]
  have := a.toNat_lt
  have := b.toNat_lt
  have := c.toNat_lt
  have := d.toNat_lt
  rw [four, number, low _ a (by omega), low _ b (by omega), low _ c (by omega), low _ d (by omega)]

end Bytes

/-- Offsets and sizes are 64-bit words; sums that would pass the largest word stay at it. -/
def saturate (n : Nat) : Nat := min n (2 ^ 64 - 1)

end OSC
