import OSC.Time

namespace OSC

/-- A span in nanoseconds. -/
def Span.total (s : Span) : Nat := s.seconds * 10 ^ 9 + s.nanos

namespace TimeTag

variable {s s' : Span} {t u : TimeTag}

/-- Times since the start of 1970 whose seconds a tag can tell. -/
structure InReach (s : Span) : Prop where
  nanos : s.nanos < 10 ^ 9
  seconds : s.seconds + epochOffset < 2 ^ 32

/-- Of two tags the one with fewer seconds is earlier, and with as many the one with the lesser fraction. -/
theorem le_iff : t.le u ↔
    t.seconds.toNat < u.seconds.toNat ∨
      t.seconds.toNat = u.seconds.toNat ∧ t.fraction.toNat ≤ u.fraction.toNat := by
  have first := t.fraction.toNat_lt
  have second := u.fraction.toNat_lt
  rw [le, decide_eq_true_eq, toNat, toNat]
  omega

theorem nanos_lt (t : TimeTag) : t.nanos < 10 ^ 9 := by
  have fraction := t.fraction.toNat_lt
  unfold nanos
  omega

theorem nanos_mono (less : t.fraction.toNat ≤ u.fraction.toNat) : t.nanos ≤ u.nanos :=
  Nat.div_le_div_right (Nat.mul_le_mul_right _ less)

/-- A fraction of five units is a nanosecond and more, one of four is less. -/
theorem nanos_eq_zero_iff : t.nanos = 0 ↔ t.fraction.toNat < 5 := by
  unfold nanos
  omega

theorem toUnix_of_early (early : t.seconds.toNat < epochOffset) : t.toUnix = ⟨0, t.nanos⟩ := by
  rw [toUnix, Nat.sub_eq_zero_of_le (Nat.le_of_lt early)]

theorem toUnix_le_iff (ordered : t.le u) :
    t.toUnix.total ≤ u.toUnix.total ↔ epochOffset < u.seconds.toNat ∨ t.nanos ≤ u.nanos := by
  have first := t.nanos_lt
  have second := u.nanos_lt
  unfold Span.total toUnix
  dsimp only
  rcases le_iff.mp ordered with before | ⟨same, less⟩
  · omega
  · have nanos := nanos_mono less
    omega

/-- Tags from before 1970 are told as its start and their fraction. So they are told as its start itself only when
that fraction is none, and tags are told in their order unless the later one is no later than the first second of
1970 and has the lesser fraction. -/
theorem toUnix_early_and_ordered (t u : TimeTag) :
    (t.seconds.toNat < epochOffset →
      t.toUnix = ⟨0, t.nanos⟩ ∧ (t.toUnix = ⟨0, 0⟩ ↔ t.fraction.toNat < 5)) ∧
    (t.le u → (t.toUnix.total ≤ u.toUnix.total ↔ epochOffset < u.seconds.toNat ∨ t.nanos ≤ u.nanos)) := by
  refine ⟨fun early => ⟨toUnix_of_early early, ?_⟩, toUnix_le_iff⟩
  rw [toUnix_of_early early, ← nanos_eq_zero_iff, Span.mk.injEq]
  exact and_iff_right rfl

theorem toUnix_early_and_ordered_half :
    let t : TimeTag := ⟨1, 2147483648⟩
    let u : TimeTag := ⟨2208988801, 7⟩
    t.seconds.toNat < epochOffset ∧ t.le u ∧ t.toUnix = ⟨0, 500000000⟩ ∧ u.toUnix = ⟨1, 1⟩ ∧
      (t.toUnix = ⟨0, 0⟩ ↔ t.fraction.toNat < 5) ∧
      (t.toUnix.total ≤ u.toUnix.total ↔ epochOffset < u.seconds.toNat ∨ t.nanos ≤ u.nanos) := by
  intro t u
  obtain ⟨early, ordered⟩ := toUnix_early_and_ordered t u
  have before : t.seconds.toNat < epochOffset := by decide
  exact ⟨before, by decide, by decide, by decide, (early before).2, ordered (by decide)⟩

/-- Half a second in 1900 is told as half a second in 1970, and so later than the second after it. -/
theorem toUnix_half_second :
    let t : TimeTag := ⟨1, 2147483648⟩
    let u : TimeTag := ⟨2, 0⟩
    t.seconds.toNat < epochOffset ∧ t.toUnix = ⟨0, 500000000⟩ ∧ t.toUnix ≠ ⟨0, 0⟩ ∧
      t.le u ∧ ¬ t.toUnix.total ≤ u.toUnix.total := by
  decide

theorem ofInstant_after (whole : s.nanos < 10 ^ 9) : ofInstant (.after s) = ofUnix s := by
  have same : s.normalize = s := by
    rw [Span.normalize, Nat.div_eq_of_lt whole, Nat.mod_eq_of_lt whole, Nat.add_zero]
  rw [ofInstant, same]

theorem ofUnix_seconds (reach : InReach s) : (ofUnix s).seconds.toNat = s.seconds + epochOffset := by
  rw [ofUnix, UInt32.toNat_ofNat', Nat.mod_eq_of_lt reach.seconds]

theorem ofUnix_fraction (whole : s.nanos < 10 ^ 9) : (ofUnix s).fraction.toNat = s.nanos * 2 ^ 32 / 10 ^ 9 := by
  rw [ofUnix, UInt32.toNat_ofNat', Nat.mod_eq_of_lt (by omega)]

/-- A thousand million divides the scaled nanoseconds if its fives do: the twos come with the scale. -/
theorem dvd_scaled_iff (n : Nat) : 10 ^ 9 ∣ n * 2 ^ 32 ↔ 1953125 ∣ n := by
  have coprime : Nat.Coprime (5 ^ 9) (2 ^ 23) := Nat.Coprime.pow 9 23 rfl
  have scaled : n * 2 ^ 32 = n * 2 ^ 23 * 2 ^ 9 := by rw [Nat.mul_assoc]
  calc 10 ^ 9 ∣ n * 2 ^ 32
      ↔ 5 ^ 9 * 2 ^ 9 ∣ n * 2 ^ 23 * 2 ^ 9 := by rw [scaled]
    _ ↔ 5 ^ 9 ∣ n * 2 ^ 23 := Nat.mul_dvd_mul_iff_right (by decide)
    _ ↔ 5 ^ 9 ∣ n := ⟨coprime.dvd_of_dvd_mul_right, fun fives => Nat.dvd_mul_right_of_dvd fives _⟩

/-- The fraction of a second is told without loss in steps of 5^9 nanoseconds. All else is rounded down twice, and a
nanosecond is lost. -/
theorem nanos_ofUnix (whole : s.nanos < 10 ^ 9) :
    (ofUnix s).nanos = if 1953125 ∣ s.nanos then s.nanos else s.nanos - 1 := by
  have split : 10 ^ 9 * (s.nanos * 2 ^ 32 / 10 ^ 9) + s.nanos * 2 ^ 32 % 10 ^ 9 = s.nanos * 2 ^ 32 := Nat.div_add_mod ..
  have rest : s.nanos * 2 ^ 32 % 10 ^ 9 < 10 ^ 9 := Nat.mod_lt _ (by decide)
  have lossless := (dvd_scaled_iff s.nanos).symm.trans Nat.dvd_iff_mod_eq_zero
  rw [nanos, ofUnix_fraction whole]
  by_cases exact : 1953125 ∣ s.nanos
  · have none := lossless.mp exact
    rw [if_pos exact]
    omega
  · have some := mt lossless.mpr exact
    rw [if_neg exact]
    omega

theorem toUnix_ofUnix (reach : InReach s) :
    (ofUnix s).toUnix = if 1953125 ∣ s.nanos then s else ⟨s.seconds, s.nanos - 1⟩ := by
  rw [toUnix, ofUnix_seconds reach, nanos_ofUnix reach.nanos, Nat.add_sub_cancel]
  split <;> rfl

theorem total_lt (whole : s.nanos < 10 ^ 9) (whole' : s'.nanos < 10 ^ 9) (less : s.total < s'.total) :
    s.seconds < s'.seconds ∨ s.seconds = s'.seconds ∧ s.nanos < s'.nanos := by
  unfold Span.total at less
  omega

/-- A unit of the fraction is less than a nanosecond, so no two times have the same tag. -/
theorem ofUnix_lt (reach : InReach s) (reach' : InReach s') (less : s.total < s'.total) :
    (ofUnix s).toNat < (ofUnix s').toNat := by
  rw [toNat, toNat, ofUnix_seconds reach, ofUnix_seconds reach']
  rcases total_lt reach.nanos reach'.nanos less with before | ⟨same, fewer⟩
  · have fraction := (ofUnix s).fraction.toNat_lt
    omega
  · have finer : s.nanos * 2 ^ 32 / 10 ^ 9 < s'.nanos * 2 ^ 32 / 10 ^ 9 := by omega
    rw [ofUnix_fraction reach.nanos, ofUnix_fraction reach'.nanos, same]
    exact Nat.add_lt_add_left finer _

/-- Rounded down to nanoseconds and back, a fraction loses at most five units. -/
theorem ofUnix_toUnix (late : epochOffset ≤ t.seconds.toNat) :
    (ofUnix t.toUnix).seconds = t.seconds ∧ (ofUnix t.toUnix).fraction.toNat ≤ t.fraction.toNat ∧
      t.fraction.toNat ≤ (ofUnix t.toUnix).fraction.toNat + 5 := by
  have seconds := t.seconds.toNat_lt
  have whole : t.toUnix.nanos < 10 ^ 9 := t.nanos_lt
  have kept : t.toUnix.seconds + epochOffset = t.seconds.toNat := Nat.sub_add_cancel late
  have reach : InReach t.toUnix := ⟨whole, by omega⟩
  have told : t.toUnix.nanos = t.fraction.toNat * 10 ^ 9 / 2 ^ 32 := rfl
  refine ⟨UInt32.toNat_inj.mp (by rw [ofUnix_seconds reach, kept]), ?_, ?_⟩
  · rw [ofUnix_fraction whole, told]
    omega
  · rw [ofUnix_fraction whole, told]
    omega

/-- What is lost between wall-clock times and tags: from a time to its tag and back a nanosecond, unless the fraction
of the second is a multiple of 5^9 nanoseconds; from a tag to its time and back at most five units of its fraction.
Different times keep their order. -/
theorem unix_losses :
    (∀ s : Span, InReach s →
      (ofInstant (.after s)).toUnix = if 1953125 ∣ s.nanos then s else ⟨s.seconds, s.nanos - 1⟩) ∧
    (∀ s s' : Span, InReach s → InReach s' → s.total < s'.total →
      (ofInstant (.after s)).toNat < (ofInstant (.after s')).toNat) ∧
    ∀ t : TimeTag, epochOffset ≤ t.seconds.toNat →
      let back := ofInstant (.after t.toUnix)
      back.seconds = t.seconds ∧ back.fraction.toNat ≤ t.fraction.toNat ∧
        t.fraction.toNat ≤ back.fraction.toNat + 5 := by
  refine ⟨fun s reach => ?_, fun s s' reach reach' less => ?_, fun t late => ?_⟩
  · rw [ofInstant_after reach.nanos]
    exact toUnix_ofUnix reach
  · rw [ofInstant_after reach.nanos, ofInstant_after reach'.nanos]
    exact ofUnix_lt reach reach' less
  · dsimp only
    rw [ofInstant_after (show t.toUnix.nanos < 10 ^ 9 from t.nanos_lt)]
    exact ofUnix_toUnix late

theorem unix_losses_last_second :
    let s : Span := ⟨2085978494, 999999999⟩
    let s' : Span := ⟨2085978495, 1953125⟩
    let t : TimeTag := ⟨2208988800, 4294967295⟩
    let back := ofInstant (.after t.toUnix)
    InReach s ∧ InReach s' ∧ epochOffset ≤ t.seconds.toNat ∧
      (ofInstant (.after s)).toUnix = ⟨2085978494, 999999998⟩ ∧ (ofInstant (.after s')).toUnix = s' ∧
      (ofInstant (.after s)).toNat < (ofInstant (.after s')).toNat ∧
      back = ⟨2208988800, 4294967291⟩ ∧ t.fraction.toNat ≤ back.fraction.toNat + 5 := by
  obtain ⟨there, ordered, back⟩ := unix_losses
  have reach : InReach ⟨2085978494, 999999999⟩ := ⟨by decide, by decide⟩
  have reach' : InReach ⟨2085978495, 1953125⟩ := ⟨by decide, by decide⟩
  exact ⟨reach, reach', by decide, there _ reach, there _ reach', ordered _ _ reach reach' (by decide), by decide,
    (back ⟨2208988800, 4294967295⟩ (by decide)).2.2⟩

end TimeTag

end OSC
