import OSC.Bytes

namespace OSC.Bytes

theorem slice_eq_none {bytes : Bytes} {offset width : Nat} :
    slice? bytes offset width = none ↔ bytes.length < offset + width := by
  unfold slice?
  split
  · simp only [reduceCtorEq, false_iff]
    omega
  · simp only [true_iff]
    omega

theorem slice_within {bytes piece : Bytes} {offset width : Nat} (found : slice? bytes offset width = some piece) :
    offset + width ≤ bytes.length := by
  refine Nat.not_lt.mp fun past => ?_
  rw [slice_eq_none.mpr past] at found
  cases found

theorem slice_drop {bytes : Bytes} {start : Nat} (within : start ≤ bytes.length) (offset width : Nat) :
    slice? (bytes.drop start) offset width = slice? bytes (start + offset) width := by
  have fits : offset + width ≤ bytes.length - start ↔ start + offset + width ≤ bytes.length := by omega
  simp only [slice?, List.length_drop, List.drop_drop, fits]

theorem word_drop {bytes : Bytes} {start : Nat} (within : start ≤ bytes.length) (offset width : Nat) :
    word? (bytes.drop start) offset width = word? bytes (start + offset) width := by
  simp only [word?, slice_drop within]

theorem nulAt_drop (bytes : Bytes) (start offset : Nat) :
    nulAt? (bytes.drop start) offset = nulAt? bytes (start + offset) := by
  simp only [nulAt?, List.drop_drop]

theorem take_drop_append {bytes : Bytes} {offset width : Nat} (within : offset + width ≤ bytes.length)
    (more : Bytes) : ((bytes ++ more).drop offset).take width = (bytes.drop offset).take width := by
  rw [List.drop_append_of_le_length (by omega), List.take_append_of_le_length]
  rw [List.length_drop]
  omega

/-- What is found in the first bytes is found when more bytes follow. -/
theorem slice_append {bytes piece : Bytes} {offset width : Nat}
    (found : slice? bytes offset width = some piece) (more : Bytes) :
    slice? (bytes ++ more) offset width = some piece := by
  unfold slice? at found ⊢
  split at found
  · rename_i fits
    cases found
    rw [if_pos (by rw [List.length_append]; omega), take_drop_append fits]
  · cases found

theorem word_eq_none {bytes : Bytes} {offset width : Nat} :
    word? bytes offset width = none ↔ bytes.length < offset + width := by
  rw [word?, Option.map_eq_none_iff, slice_eq_none]

theorem word_within {bytes : Bytes} {offset width n : Nat} (found : word? bytes offset width = some n) :
    offset + width ≤ bytes.length := by
  obtain ⟨piece, atOffset, _⟩ := Option.map_eq_some_iff.mp found
  exact slice_within atOffset

theorem word_append {bytes : Bytes} {offset width n : Nat} (found : word? bytes offset width = some n)
    (more : Bytes) : word? (bytes ++ more) offset width = some n := by
  obtain ⟨piece, atOffset, value⟩ := Option.map_eq_some_iff.mp found
  rw [word?, slice_append atOffset more, Option.map_some, value]

theorem word_lt {bytes : Bytes} {offset width n : Nat} (found : word? bytes offset width = some n) :
    n < 256 ^ width := by
  obtain ⟨piece, atOffset, rfl⟩ := Option.map_eq_some_iff.mp found
  rw [← length_slice atOffset]
  exact toNat_lt piece

theorem slice_take {bytes : Bytes} {offset width stop : Nat} (inside : offset + width ≤ stop) :
    slice? (bytes.take stop) offset width = slice? bytes offset width := by
  have fits : offset + width ≤ min stop bytes.length ↔ offset + width ≤ bytes.length := by omega
  have short : ((bytes.take stop).drop offset).take width = (bytes.drop offset).take width := by
    rw [List.drop_take, List.take_take, Nat.min_eq_left (by omega)]
  simp only [slice?, List.length_take, fits, short]

theorem word_take {bytes : Bytes} {offset width stop : Nat} (inside : offset + width ≤ stop) :
    word? (bytes.take stop) offset width = word? bytes offset width := by
  rw [word?, slice_take inside, word?]

/-- Bytes of one length that are the same from `start` on have the same slices there. -/
theorem slice_congr {bytes other : Bytes} {start offset : Nat} (lengths : other.length = bytes.length)
    (same : other.drop start = bytes.drop start) (behind : start ≤ offset) (width : Nat) :
    slice? other offset width = slice? bytes offset width := by
  obtain ⟨more, rfl⟩ := Nat.exists_eq_add_of_le behind
  simp only [slice?, lengths, ← List.drop_drop, same]

theorem word_congr {bytes other : Bytes} {start offset : Nat} (lengths : other.length = bytes.length)
    (same : other.drop start = bytes.drop start) (behind : start ≤ offset) (width : Nat) :
    word? other offset width = word? bytes offset width := by
  rw [word?, slice_congr lengths same behind, word?]

theorem nulAt_append {bytes : Bytes} {offset n : Nat} (found : nulAt? bytes offset = some n)
    (more : Bytes) : nulAt? (bytes ++ more) offset = some n := by
  unfold nulAt? at found ⊢
  rw [List.drop_append, List.findIdx?_append, found, Option.some_or]

theorem zero_of_nulAt {bytes : Bytes} {offset n : Nat} (found : nulAt? bytes offset = some n) :
    bytes[offset + n]? = some 0 := by
  obtain ⟨inside, zero, _⟩ := List.findIdx?_eq_some_iff_getElem.mp found
  have here : (bytes.drop offset)[n]? = some (bytes.drop offset)[n] := List.getElem?_eq_getElem inside
  rw [List.getElem?_drop] at here
  rw [here, eq_of_beq zero]

theorem nulAt_of_zero {bytes : Bytes} {offset place : Nat} (behind : offset ≤ place) (zero : bytes[place]? = some 0) :
    ∃ n, nulAt? bytes offset = some n := by
  have here : (bytes.drop offset)[place - offset]? = some 0 := by
    rw [List.getElem?_drop, Nat.add_sub_cancel' behind, zero]
  rw [nulAt?, ← Option.isSome_iff_exists, List.findIdx?_isSome, List.any_eq_true]
  exact ⟨0, List.mem_of_getElem? here, rfl⟩

theorem nulAt_lt {bytes : Bytes} {offset n : Nat} (found : nulAt? bytes offset = some n) :
    offset + n < bytes.length := by
  have bound := (List.findIdx?_eq_some_iff_getElem.mp found).1
  rw [List.length_drop] at bound
  omega

/-- The first zero stays the first when the bytes are cut behind it. -/
theorem nulAt_take {bytes : Bytes} {offset n stop : Nat} (found : nulAt? bytes offset = some n)
    (inside : offset + n < stop) : nulAt? (bytes.take stop) offset = some n := by
  have within := nulAt_lt found
  obtain ⟨_, zero, before⟩ := List.findIdx?_eq_some_iff_getElem.mp found
  have room : n < ((bytes.take stop).drop offset).length := by
    rw [List.length_drop, List.length_take]
    omega
  refine List.findIdx?_eq_some_iff_getElem.mpr ⟨room, ?_, fun i less => ?_⟩
  · simpa only [List.getElem_drop, List.getElem_take] using zero
  · simpa only [List.getElem_drop, List.getElem_take] using before i less

/-- A text without zeros ends at the zero written behind it. -/
theorem nulAt_text {text : Bytes} (noZero : 0 ∉ text) (more : Bytes) :
    nulAt? (text ++ 0 :: more) 0 = some text.length := by
  have passed : text.findIdx? (· == 0) = none := by
    rw [List.findIdx?_eq_none_iff]
    intro b member
    exact beq_eq_false_iff_ne.mpr fun zero => noZero (zero ▸ member)
  rw [nulAt?, List.drop_zero, List.findIdx?_append, passed, Option.none_or, List.findIdx?_cons]
  simp

theorem word_front (piece after : Bytes) : word? (piece ++ after) 0 piece.length = some (toNat piece) := by
  have here : slice? (piece ++ after) 0 piece.length = some piece := by
    rw [slice?, if_pos (by rw [List.length_append]; omega), List.drop_zero, List.take_left]
  rw [word?, here, Option.map_some]

theorem word_behind (front piece rest : Bytes) :
    word? (front ++ (piece ++ rest)) front.length piece.length = some (toNat piece) := by
  have place : front.length ≤ (front ++ (piece ++ rest)).length := by
    rw [List.length_append]
    omega
  have moved := word_drop place 0 piece.length
  rw [List.drop_left, Nat.add_zero] at moved
  rw [← moved, word_front]

end OSC.Bytes
