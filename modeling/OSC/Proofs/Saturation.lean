import Mathlib.Algebra.Order.Field.Power
import Mathlib.Data.Rat.Floor
import Mathlib.Tactic.FieldSimp
import Mathlib.Tactic.Ring
import OSC.Proofs.Readings
import OSC.Proofs.Texts

namespace OSC

namespace Binary

variable {low high : ℤ} {x : ℚ}

/-- A number brought into a range. -/
def clamp (low high n : ℤ) : ℤ := max low (min high n)

/-- A number without what stands behind its point. -/
def towardZero (x : ℚ) : ℤ := if 0 ≤ x then ⌊x⌋ else ⌈x⌉

/-- What bits stand for, with nothing rounded. -/
inductive Exact
  | nan
  | infinite (negative : Bool)
  | number (x : ℚ)

/-- What is no number counts as zero, and infinities as the ends of the range. -/
def Exact.saturated (low high : ℤ) : Exact → ℤ
  | nan => 0
  | infinite negative => if negative then low else high
  | number x => clamp low high (towardZero x)

/-- The fraction stands behind the point, with a one before it unless the exponent is zero. The greatest exponent is kept
for infinities and for what is no number. -/
def Format.exact (f : Format) (bits : ℕ) : Exact :=
  let exponent := f.exponentField bits
  let fraction : ℚ := f.fractionField bits / 2 ^ f.fractionBits
  let sign : ℚ := if f.isNegative bits then -1 else 1
  if exponent = 2 ^ f.exponentBits - 1 then
    if fraction = 0 then .infinite (f.isNegative bits) else .nan
  else if exponent = 0 then .number (sign * (fraction * 2 ^ (1 - f.bias : ℤ)))
  else .number (sign * ((1 + fraction) * 2 ^ (exponent - f.bias : ℤ)))

theorem clamp_within (order : low ≤ high) (n : ℤ) : low ≤ clamp low high n ∧ clamp low high n ≤ high := by
  unfold clamp
  omega

theorem clamp_of_mem {n : ℤ} (above : low ≤ n) (below : n ≤ high) : clamp low high n = n := by
  unfold clamp
  omega

/-- A wider range does not matter before a narrower one. -/
theorem clamp_clamp {low' high' : ℤ} (order : low ≤ high) (wider : low' ≤ low) (wider' : high ≤ high') (n : ℤ) :
    clamp low high (clamp low' high' n) = clamp low high n := by
  unfold clamp
  omega

theorem Exact.saturated_within (zero : low ≤ 0) (zero' : 0 ≤ high) (e : Exact) :
    low ≤ e.saturated low high ∧ e.saturated low high ≤ high := by
  cases e with
  | nan => exact ⟨zero, zero'⟩
  | infinite negative => cases negative <;> simp [saturated, zero.trans zero']
  | number x => exact clamp_within (zero.trans zero') _

/-- The narrower of two ranges gives what the wider one gives, brought into it. -/
theorem Exact.saturated_narrow {low' high' : ℤ} (zero : low ≤ 0) (zero' : 0 ≤ high) (wider : low' ≤ low)
    (wider' : high ≤ high') (e : Exact) :
    e.saturated low high = clamp low high (e.saturated low' high') := by
  have order : low ≤ high := zero.trans zero'
  cases e with
  | nan => exact (clamp_of_mem zero zero').symm
  | infinite negative => cases negative <;> simp [saturated, clamp] <;> omega
  | number x => exact (clamp_clamp order wider wider' _).symm

theorem towardZero_of_nonneg (positive : 0 ≤ x) : towardZero x = ⌊x⌋ := if_pos positive

theorem towardZero_neg (positive : 0 ≤ x) : towardZero (-x) = -⌊x⌋ := by
  unfold towardZero
  by_cases zero : 0 ≤ -x
  · obtain rfl : x = 0 := by linarith
    simp
  · rw [if_neg zero, Int.ceil_neg]

theorem wholePart_eq (m : ℕ) (q : ℤ) : (Datum.wholePart m q : ℤ) = ⌊(m : ℚ) * 2 ^ q⌋ := by
  unfold Datum.wholePart
  split
  case isTrue whole =>
    obtain ⟨k, rfl⟩ := Int.eq_ofNat_of_zero_le whole
    have cast : (m : ℚ) * 2 ^ (k : ℤ) = ((m * 2 ^ k : ℕ) : ℤ) := by simp
    rw [cast, Int.floor_intCast]
    rfl
  case isFalse part =>
    obtain ⟨k, rfl⟩ : ∃ k : ℕ, q = -k := ⟨(-q).toNat, by omega⟩
    have cast : (m : ℚ) * 2 ^ (-k : ℤ) = (m : ℚ) / (2 ^ k : ℕ) := by simp [div_eq_mul_inv]
    rw [cast, Rat.floor_natCast_div_natCast]
    simp

theorem truncate_finite (low high : ℤ) (negative : Bool) (m : ℕ) (q : ℤ) :
    (Datum.finite negative m q).truncate low high =
      clamp low high (towardZero ((if negative then -1 else 1) * (m * 2 ^ q))) := by
  have positive : 0 ≤ (m : ℚ) * 2 ^ q := by positivity
  cases negative with
  | false => simp [Datum.truncate, clamp, wholePart_eq, towardZero_of_nonneg positive]
  | true => simp [Datum.truncate, clamp, wholePart_eq, towardZero_neg positive]

theorem div_mul_zpow (a : ℚ) (p : ℕ) (k : ℤ) : a / 2 ^ p * 2 ^ k = a * 2 ^ (k - p) := by
  rw [zpow_sub₀ two_ne_zero, zpow_natCast]
  ring

/-- What is made of a number is exact until it is brought into a range. -/
theorem truncate_datum (f : Format) (low high : ℤ) (bits : ℕ) :
    (f.datum bits).truncate low high = (f.exact bits).saturated low high := by
  have power : (2 : ℚ) ^ f.fractionBits ≠ 0 := by positivity
  unfold Format.datum Format.exact
  dsimp only
  by_cases greatest : f.exponentField bits = 2 ^ f.exponentBits - 1
  · rw [if_pos greatest, if_pos greatest]
    by_cases none : f.fractionField bits = 0
    · simp [none, Datum.truncate, Exact.saturated]
    · simp [none, Datum.truncate, Exact.saturated]
  rw [if_neg greatest, if_neg greatest]
  by_cases zero : f.exponentField bits = 0
  · rw [if_pos zero, if_pos zero, truncate_finite, div_mul_zpow]
    rfl
  · rw [if_neg zero, if_neg zero, truncate_finite]
    have one : 1 + (f.fractionField bits : ℚ) / 2 ^ f.fractionBits =
        ((2 ^ f.fractionBits + f.fractionField bits : ℕ) : ℚ) / 2 ^ f.fractionBits := by
      push_cast
      field_simp
    have exponent : f.leastExponent + f.exponentField bits - 1 =
        (f.exponentField bits - f.bias : ℤ) - f.fractionBits := by
      unfold Format.leastExponent
      ring
    rw [one, div_mul_zpow, exponent]
    rfl

end Binary

open Binary

namespace Single

/-- What the bits of the number stand for. -/
def exact (x : Single) : Exact := Format.single.exact x.toNat

/-- One bit for the sign, eight for the exponent and 23 for the fraction. -/
theorem exact_eq (x : Single) : x.exact =
    let exponent : ℕ := x.toNat / 2 ^ 23 % 2 ^ 8
    let fraction : ℚ := (x.toNat % 2 ^ 23 : ℕ) / 2 ^ 23
    let negative : Bool := x.toNat / 2 ^ 31 % 2 == 1
    let sign : ℚ := if negative then -1 else 1
    if exponent = 255 then if fraction = 0 then .infinite negative else .nan
    else if exponent = 0 then .number (sign * (fraction * 2 ^ (-126 : ℤ)))
    else .number (sign * ((1 + fraction) * 2 ^ (exponent - 127 : ℤ))) := rfl

theorem toInt_toInt32 (x : Single) :
    x.toInt32.toInt = x.exact.saturated Int32.minValue.toInt Int32.maxValue.toInt := by
  rw [Int32.toInt_minValue, Int32.toInt_maxValue]
  have zero : (-2 ^ 31 : ℤ) ≤ 0 ∧ (0 : ℤ) ≤ 2 ^ 31 - 1 := by decide
  obtain ⟨above, below⟩ := x.exact.saturated_within zero.1 zero.2
  unfold toInt32 datum
  rw [truncate_datum, ← exact, Int32.toInt_ofInt_of_le above (Int.lt_of_le_sub_one below)]

theorem toInt_toInt64 (x : Single) :
    x.toInt64.toInt = x.exact.saturated Int64.minValue.toInt Int64.maxValue.toInt := by
  rw [Int64.toInt_minValue, Int64.toInt_maxValue]
  have zero : (-2 ^ 63 : ℤ) ≤ 0 ∧ (0 : ℤ) ≤ 2 ^ 63 - 1 := by decide
  obtain ⟨above, below⟩ := x.exact.saturated_within zero.1 zero.2
  unfold toInt64 datum
  rw [truncate_datum, ← exact, Int64.toInt_ofInt_of_le above (Int.lt_of_le_sub_one below)]

end Single

/-- The integer that is read in 32 bits is the one that is read in 64, brought into the narrower range. -/
theorem Conversion.int_narrows {argument : Argument} {v : Int32} (narrow : int.convert? argument = some v) :
    ∃ w, long.convert? argument = some w ∧ v.toInt = clamp Int32.minValue.toInt Int32.maxValue.toInt w.toInt := by
  cases argument with
  | int32 n =>
    cases narrow
    refine ⟨v.toInt64, rfl, ?_⟩
    rw [Int32.toInt_toInt64, clamp_of_mem (Int32.minValue_le_toInt v) (Int32.toInt_le v)]
  | float32 x =>
    cases narrow
    refine ⟨x.toInt64, rfl, ?_⟩
    rw [x.toInt_toInt32, x.toInt_toInt64]
    exact x.exact.saturated_narrow (by decide) (by decide) (by decide) (by decide)
  | char c =>
    cases narrow
    refine ⟨Int64.ofNat c.toNat, rfl, ?_⟩
    have code := Utf8.toNat_lt c
    rw [Int32.toInt_ofNat_of_lt (by omega), Int64.toInt_ofNat_of_lt (by omega), clamp_of_mem]
    · exact Int.le_trans (by decide) (Int.natCast_nonneg _)
    · rw [Int32.toInt_maxValue]
      omega
  | bool value =>
    cases narrow
    refine ⟨if value then 1 else 0, rfl, ?_⟩
    cases value <;> decide
  | _ => cases narrow

namespace Arguments

variable {α : Type} {a : Arguments} {index : ℕ}

theorem read_eq_ok {c : Conversion α} {v : α} :
    a.read c index = .ok v ↔ ∃ argument, a.get index = .ok argument ∧ c.convert? argument = some v := by
  unfold read
  cases a.get index with
  | error e => exact ⟨nofun, nofun⟩
  | ok argument =>
    cases converted : c.convert? argument with
    | none => simp [bind, Except.bind, converted]
    | some value => simp [bind, Except.bind, converted]

/-- Only the two tags of 64 bits are read as long integers but not as short ones. -/
theorem mem_int_column (tag : Tag) :
    tag ∈ Reader.int.column ↔ tag ∈ Reader.long.column ∧ tag ≠ .int64 ∧ tag ≠ .float64 := by
  cases tag with
  | bool value => cases value <;> decide
  | _ => decide

theorem read_int_iff : (∃ v, a.read .int index = .ok v) ↔
    (∃ w, a.read .long index = .ok w) ∧ a.tag index ≠ .ok .int64 ∧ a.tag index ≠ .ok .float64 := by
  have narrow := (a.answers index).read .int
  have wide := (a.answers index).read .long
  refine narrow.trans ?_
  constructor
  · rintro ⟨tag, offset, recorded, whole, known⟩
    obtain ⟨known, notInt64, notFloat64⟩ := (mem_int_column tag).mp known
    refine ⟨wide.mpr ⟨tag, offset, recorded, whole, known⟩, ?_, ?_⟩
    · simpa [Arguments.tag, recorded.tag] using notInt64
    · simpa [Arguments.tag, recorded.tag] using notFloat64
  · rintro ⟨long, notInt64, notFloat64⟩
    obtain ⟨tag, offset, recorded, whole, known⟩ := wide.mp long
    simp only [Arguments.tag, recorded.tag] at notInt64 notFloat64
    refine ⟨tag, offset, recorded, whole, (mem_int_column tag).mpr ⟨known, ?_, ?_⟩⟩
    · rintro rfl
      exact notInt64 rfl
    · rintro rfl
      exact notFloat64 rfl

theorem read_int_narrows {v : Int32} (read : a.read .int index = .ok v) :
    ∃ w, a.read .long index = .ok w ∧ v.toInt = clamp Int32.minValue.toInt Int32.maxValue.toInt w.toInt := by
  obtain ⟨argument, found, narrow⟩ := read_eq_ok.mp read
  obtain ⟨w, wide, same⟩ := Conversion.int_narrows narrow
  exact ⟨w, read_eq_ok.mpr ⟨argument, found, wide⟩, same⟩

theorem read_long_single {x : Single} (found : a.get index = .ok (.float32 x)) :
    ∃ w, a.read .long index = .ok w ∧ w.toInt = x.exact.saturated Int64.minValue.toInt Int64.maxValue.toInt :=
  ⟨x.toInt64, read_eq_ok.mpr ⟨_, found, rfl⟩, x.toInt_toInt64⟩

/-- Whatever is read as a short integer is read as a long one too, and is that brought into the range of short ones. A
number with a fraction is read as what stands before its point, brought into the range. -/
theorem read_int_saturates (a : Arguments) (index : ℕ) :
    ((∃ v, a.read .int index = .ok v) ↔
      (∃ w, a.read .long index = .ok w) ∧ a.tag index ≠ .ok .int64 ∧ a.tag index ≠ .ok .float64) ∧
    (∀ v, a.read .int index = .ok v → ∃ w, a.read .long index = .ok w ∧
      v.toInt = clamp Int32.minValue.toInt Int32.maxValue.toInt w.toInt) ∧
    ∀ x, a.get index = .ok (.float32 x) → ∃ w, a.read .long index = .ok w ∧
      w.toInt = x.exact.saturated Int64.minValue.toInt Int64.maxValue.toInt :=
  ⟨read_int_iff, fun _ => read_int_narrows, fun _ => read_long_single⟩

/-- A number between the ends of the two ranges, one with a fraction, one past both ranges and the one next to zero; then
what is no number, an infinity, and an integer of 64 bits. -/
def floats : Arguments :=
  ⟨[0x4F, 0x32, 0xD0, 0x5E, 0xBF, 0xC0, 0, 0, 0xF1, 0x49, 0xF2, 0xCA, 0, 0, 0, 1, 0x7F, 0xC0, 0, 1, 0xFF, 0x80, 0, 0] ++
    List.replicate 8 0,
    ⟨List.replicate 6 .float32 ++ [.int64], [0, 4, 8, 12, 16, 20, 24] ++ List.replicate 25 0, by decide, by decide⟩⟩

theorem read_int_saturates_floats :
    floats.get 0 = .ok (.float32 ⟨0x4F32D05E⟩) ∧ (Single.mk 0x4F32D05E).exact = .number 3000000000 ∧
      floats.read .long 0 = .ok 3000000000 ∧ floats.read .int 0 = .ok Int32.maxValue ∧
      Int32.maxValue.toInt = clamp Int32.minValue.toInt Int32.maxValue.toInt (3000000000 : Int64).toInt ∧
      floats.get 1 = .ok (.float32 ⟨0xBFC00000⟩) ∧ (Single.mk 0xBFC00000).exact = .number (-3 / 2) ∧
      floats.read .long 1 = .ok (-1) ∧
      (-1 : Int64).toInt = clamp Int64.minValue.toInt Int64.maxValue.toInt (towardZero (-3 / 2)) ∧
      floats.get 3 = .ok (.float32 ⟨1⟩) ∧ (Single.mk 1).exact = .number (1 / 2 ^ 149) ∧
      (∃ w, floats.read .long 3 = .ok w ∧
        w.toInt = clamp Int64.minValue.toInt Int64.maxValue.toInt (towardZero (1 / 2 ^ 149))) ∧
      floats.get 4 = .ok (.float32 ⟨0x7FC00001⟩) ∧ (Single.mk 0x7FC00001).exact = .nan ∧
      (∃ w, floats.read .long 4 = .ok w ∧ w.toInt = 0) ∧
      floats.get 5 = .ok (.float32 ⟨0xFF800000⟩) ∧ (Single.mk 0xFF800000).exact = .infinite true ∧
      (∃ w, floats.read .long 5 = .ok w ∧ w.toInt = Int64.minValue.toInt) ∧
      (∃ w, floats.read .long 6 = .ok w) ∧ floats.tag 6 = .ok .int64 ∧ ¬ ∃ v, floats.read .int 6 = .ok v := by
  have large : (Single.mk 0x4F32D05E).exact = .number 3000000000 := by
    simp [Single.exact_eq, Single.toNat]
    norm_num
  have half : (Single.mk 0xBFC00000).exact = .number (-3 / 2) := by
    simp [Single.exact_eq, Single.toNat]
    norm_num
  have least : (Single.mk 1).exact = .number (1 / 2 ^ 149) := by
    simp [Single.exact_eq, Single.toNat]
    norm_num
  have none : (Single.mk 0x7FC00001).exact = .nan := by simp [Single.exact_eq, Single.toNat]
  have infinite : (Single.mk 0xFF800000).exact = .infinite true := by simp [Single.exact_eq, Single.toNat]
  obtain ⟨_, narrows, _⟩ := read_int_saturates floats 0
  obtain ⟨w, wide, same⟩ := narrows _ rfl
  cases wide
  obtain ⟨w', wide', same'⟩ := (read_int_saturates floats 1).2.2 ⟨0xBFC00000⟩ rfl
  cases wide'
  obtain ⟨known, _, _⟩ := read_int_saturates floats 6
  rw [half] at same'
  refine ⟨rfl, large, rfl, rfl, same, rfl, half, rfl, same', rfl, least, ?_, rfl, none, ?_, rfl, infinite, ?_,
    ⟨0, rfl⟩, rfl, fun long => (known.mp long).2.1 rfl⟩
  · have read := (read_int_saturates floats 3).2.2 ⟨1⟩ rfl
    rwa [least] at read
  · have read := (read_int_saturates floats 4).2.2 ⟨0x7FC00001⟩ rfl
    rwa [none] at read
  · have read := (read_int_saturates floats 5).2.2 ⟨0xFF800000⟩ rfl
    rwa [infinite] at read

end Arguments

end OSC
