import OSC.Proofs.Cursors
import OSC.Proofs.Strict.Words

namespace OSC.Strict

open OSC.Bundle (Fault Cursor)

variable {bytes : Bytes}

def isMarkedAt (bytes : Bytes) (offset : Nat) : Strict Bool := do
  let word ← word? bytes offset 8
  return word == some (Bytes.toNat Bundle.marker)

def openBundle (bytes : Bytes) (start stop : Nat) : Strict (Except Fault (TimeTag × Cursor)) := do
  let stop := min stop bytes.length
  let visible ← taking bytes stop
  let marked ← isMarkedAt visible start
  if marked then
    let timeStart ← add start 8
    let elementsStart ← add start 16
    match (slice? bytes timeStart elementsStart).filter fun time => elementsStart ≤ stop ∧ time.length = 8 with
    | some time => return .ok (.ofNat (Bytes.toNat time), ⟨elementsStart, stop⟩)
    | none => return .error .noTime
  else return .error .unmarked

def next (bytes : Bytes) (c : Cursor) : Strict (Option (Except Fault Extent × Cursor)) :=
  if c.stop ≤ c.position then return none
  else
    match ((sum? c.position 4).filter (· ≤ c.stop)).bind (slice? bytes c.position) with
    | none => return some (.error .noSize, ⟨c.stop, c.stop⟩)
    | some piece => do
      let digits ← front piece 4
      let size := Bytes.toNat digits
      let start ← add c.position 4
      match if size < 2 ^ 31 then (sum? start size).filter (· ≤ c.stop) else none with
      | some stop => return some (.ok ⟨start, stop⟩, ⟨stop, c.stop⟩)
      | none => return some (.error .oversized, ⟨c.stop, c.stop⟩)

theorem toNat_eq_iff {xs ys : Bytes} (aligned : xs.length = ys.length) : xs.toNat = ys.toNat ↔ xs = ys := by
  refine ⟨fun same => ?_, fun same => same ▸ rfl⟩
  rw [← Bytes.ofNat_toNat xs, ← Bytes.ofNat_toNat ys, aligned, same]

theorem isMarkedAt_eq (small : bytes.length < Bytes.limit) (offset : Nat) :
    isMarkedAt bytes offset = .ok (Bundle.isMarkedAt bytes offset) := by
  rw [isMarkedAt, word_eq small, ok_bind, Bytes.word?, Bundle.isMarkedAt]
  cases found : bytes.slice? offset 8 with
  | none => rfl
  | some piece =>
    have same := toNat_eq_iff (Bytes.length_slice found : piece.length = Bundle.marker.length)
    refine congrArg Except.ok (Bool.eq_iff_iff.mpr ?_)
    rw [Option.map_some, beq_iff_eq, beq_iff_eq, Option.some_inj, Option.some_inj, same]

theorem marked_within {offset : Nat} (marked : Bundle.isMarkedAt bytes offset) : offset + 8 ≤ bytes.length :=
  Bytes.slice_within (Bundle.marked_iff.mp marked)

/-- A slice that ends no later than `stop` is one of the bytes before that. -/
theorem filter_slice (bytes : Bytes) (offset width stop : Nat) :
    (slice? bytes offset (offset + width)).filter (fun piece => offset + width ≤ stop ∧ piece.length = width) =
      Bytes.slice? (bytes.take stop) offset width := by
  rw [slice_width]
  by_cases inside : offset + width ≤ stop
  · rw [Bytes.slice_take inside]
    cases found : bytes.slice? offset width with
    | none => rfl
    | some piece => rw [Option.filter_some, if_pos (decide_eq_true ⟨inside, Bytes.length_slice found⟩)]
  · have past : Bytes.slice? (bytes.take stop) offset width = none := by
      rw [Bytes.slice_eq_none, List.length_take]
      omega
    rw [past, Option.filter_eq_none_iff]
    intro piece _ fits
    exact inside (of_decide_eq_true fits).1

theorem openBundle_eq (small : bytes.length < Bytes.limit) (start stop : Nat) :
    openBundle bytes start stop = .ok (Bundle.open? bytes start stop) := by
  have visible : taking bytes (min stop bytes.length) = .ok (bytes.take (min stop bytes.length)) :=
    taking_eq (Nat.min_le_right ..)
  have length : (bytes.take (min stop bytes.length)).length = min stop bytes.length := by
    rw [List.length_take]
    omega
  have visibleSmall : (bytes.take (min stop bytes.length)).length < Bytes.limit := by omega
  simp only [openBundle, visible, isMarkedAt_eq visibleSmall, ok_bind, Bundle.open?]
  cases marked : Bundle.isMarkedAt (bytes.take (min stop bytes.length)) start with
  | false => rfl
  | true =>
    have within := marked_within marked
    have time := filter_slice bytes (start + 8) 8 (min stop bytes.length)
    unfold Bytes.limit at small
    simp only [if_true, add_eq (by omega : start + 8 < 2 ^ 64), add_eq (by omega : start + 16 < 2 ^ 64), ok_bind,
      Bytes.word?, time]
    cases Bytes.slice? (bytes.take (min stop bytes.length)) (start + 8) 8 <;> rfl

theorem next_eq {c : Cursor} (small : c.stop < 2 ^ 64) : next bytes c = .ok (c.next? bytes) := by
  unfold next Cursor.next?
  by_cases left : c.position < c.stop
  · rw [if_neg (by omega), if_pos left, filter_sum small]
    by_cases room : c.position + 4 ≤ c.stop
    · rw [if_pos room, if_pos room, Option.bind_some, slice_width, Bytes.word?]
      cases found : bytes.slice? c.position 4 with
      | none => rfl
      | some piece =>
        have length := Bytes.length_slice found
        have digits := front_eq (Nat.le_of_eq length.symm)
        have whole : piece.take 4 = piece := List.take_of_length_le (by omega)
        simp only [digits, whole, add_eq (by omega : c.position + 4 < 2 ^ 64), ok_bind, filter_sum small,
          Option.map_some]
        by_cases signless : Bytes.toNat piece < 2 ^ 31
        · by_cases inside : c.position + 4 + Bytes.toNat piece ≤ c.stop
          · rw [if_pos signless, if_pos inside, if_pos ⟨signless, inside⟩]
            rfl
          · rw [if_pos signless, if_neg inside, if_neg fun fits => inside fits.2]
            rfl
        · rw [if_neg signless, if_neg fun fits => signless fits.1]
          rfl
    · rw [if_neg room, if_neg room]
      rfl
  · rw [if_pos (by omega), if_neg left]
    rfl

end OSC.Strict
