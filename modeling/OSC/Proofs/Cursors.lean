import OSC.Bundle.Reader
import OSC.Proofs.Slices

namespace OSC.Bundle

theorem marked_iff {bytes : Bytes} {offset : Nat} :
    isMarkedAt bytes offset ↔ bytes.slice? offset 8 = some marker := by
  rw [isMarkedAt, beq_iff_eq]

theorem hash_of_marked {bytes : Bytes} {offset : Nat} (marked : isMarkedAt bytes offset) :
    bytes[offset]? = some 35 := by
  have found := marked_iff.mp marked
  unfold Bytes.slice? at found
  split at found
  · have first : ((bytes.drop offset).take 8)[0]? = some 35 := by rw [Option.some.inj found]; rfl
    rwa [List.getElem?_take_of_lt (by decide), List.getElem?_drop, Nat.add_zero] at first
  · cases found

theorem marked_of_take {bytes : Bytes} {stop offset : Nat} (marked : isMarkedAt (bytes.take stop) offset) :
    isMarkedAt bytes offset := by
  have whole := Bytes.slice_append (marked_iff.mp marked) (bytes.drop stop)
  rw [List.take_append_drop] at whole
  exact marked_iff.mpr whole

/-- A bundle is opened by its own bytes alone. -/
theorem open_take (bytes : Bytes) (start stop : Nat) :
    open? (bytes.take stop) start (bytes.take stop).length = open? bytes start stop := by
  have visible : bytes.take (min stop bytes.length) = bytes.take stop := List.take_eq_take_min.symm
  have whole : (bytes.take stop).take (min stop bytes.length) = bytes.take stop := by
    rw [List.take_take, Nat.min_eq_left (Nat.min_le_left ..), visible]
  simp only [open?, Nat.min_self, List.length_take, whole, visible]

/-- Nothing before a bundle has a part in its header. -/
theorem open_congr {bytes other : Bytes} {start : Nat} (lengths : other.length = bytes.length)
    (same : other.drop start = bytes.drop start) :
    open? other start other.length = open? bytes start bytes.length := by
  have marked : isMarkedAt other start = isMarkedAt bytes start := by
    rw [isMarkedAt, Bytes.slice_congr lengths same (Nat.le_refl _), isMarkedAt]
  have time := Bytes.word_congr lengths same (Nat.le_add_right start 8) 8
  simp only [open?, Nat.min_self, List.take_length, marked, time]
  rw [lengths]

/-- The cursor of a bundle starts behind the header, within the bytes. -/
theorem stop_of_open {bytes : Bytes} {start stop : Nat} {time : TimeTag} {c : Cursor}
    (opened : open? bytes start stop = .ok (time, c)) :
    c.position = start + 16 ∧ c.stop = min stop bytes.length := by
  unfold open? at opened
  dsimp only at opened
  split at opened
  · split at opened
    · cases opened
      exact ⟨rfl, rfl⟩
    · cases opened
  · cases opened

theorem marked_of_open {bytes : Bytes} {start stop : Nat} {time : TimeTag} {c : Cursor}
    (opened : open? bytes start stop = .ok (time, c)) : isMarkedAt (bytes.take stop) start := by
  have visible : bytes.take (min stop bytes.length) = bytes.take stop := List.take_eq_take_min.symm
  unfold open? at opened
  dsimp only at opened
  split at opened
  · rwa [visible] at *
  · cases opened

namespace Cursor

variable {bytes : Bytes}

theorem items_none {c : Cursor} (finished : c.next? bytes = none) : c.items bytes = [] := by
  rw [items]
  split
  · rfl
  · rename_i step
    rw [finished] at step
    cases step

theorem items_some {c after : Cursor} {item : Except Fault Extent}
    (step : c.next? bytes = some (item, after)) : c.items bytes = item :: after.items bytes := by
  rw [items]
  split
  · rename_i finished
    rw [finished] at step
    cases step
  · rename_i step'
    rw [step] at step'
    cases step'
    rfl

theorem next_take {c : Cursor} {stop : Nat} (within : c.stop ≤ stop) :
    c.next? (bytes.take stop) = c.next? bytes := by
  unfold next?
  by_cases inside : c.position + 4 ≤ c.stop
  · simp only [if_pos inside, Bytes.word_take (by omega : c.position + 4 ≤ stop)]
  · simp only [if_neg inside]

/-- What lies behind the end of a bundle has no part in its elements. -/
theorem items_take {c : Cursor} {stop : Nat} (within : c.stop ≤ stop) :
    c.items (bytes.take stop) = c.items bytes := by
  fun_induction c.items bytes with
  | case1 c finished => exact items_none ((next_take within).trans finished)
  | case2 c item after step ih =>
    rw [items_some ((next_take within).trans step), ih ((next_advances step).2.2 ▸ within)]

theorem next_congr {other : Bytes} {start : Nat} {c : Cursor} (lengths : other.length = bytes.length)
    (same : other.drop start = bytes.drop start) (behind : start ≤ c.position) :
    c.next? other = c.next? bytes := by
  simp only [next?, Bytes.word_congr lengths same behind]

theorem items_congr {other : Bytes} {start : Nat} {c : Cursor} (lengths : other.length = bytes.length)
    (same : other.drop start = bytes.drop start) (behind : start ≤ c.position) :
    c.items other = c.items bytes := by
  fun_induction c.items bytes with
  | case1 c finished => exact items_none ((next_congr lengths same behind).trans finished)
  | case2 c item after step ih =>
    have advances := next_advances step
    rw [items_some ((next_congr lengths same behind).trans step), ih (by omega)]

theorem next_eq_none {c : Cursor} : c.next? bytes = none ↔ c.stop ≤ c.position := by
  unfold next?
  split
  · dsimp only
    refine ⟨fun finished => ?_, by omega⟩
    split at finished
    · cases finished
    · split at finished <;> cases finished
  · exact ⟨fun _ => by omega, fun _ => rfl⟩

theorem next_of_size {position stop size : Nat} (word : bytes.word? position 4 = some size)
    (signless : size < 2 ^ 31) (inside : position + 4 + size ≤ stop) :
    (Cursor.mk position stop).next? bytes =
      some (.ok ⟨position + 4, position + 4 + size⟩, ⟨position + 4 + size, stop⟩) := by
  simp only [next?]
  rw [if_pos (by omega), if_pos (by omega), word]
  dsimp only
  rw [if_pos ⟨signless, inside⟩]

/-- A cursor goes over one element, or it ends with a fault. -/
theorem next_cases {c after : Cursor} {item : Except Fault Extent} (step : c.next? bytes = some (item, after)) :
    (∃ size, bytes.word? c.position 4 = some size ∧ size < 2 ^ 31 ∧ c.position + 4 + size ≤ c.stop ∧
      item = .ok ⟨c.position + 4, c.position + 4 + size⟩ ∧ after = ⟨c.position + 4 + size, c.stop⟩) ∨
    ∃ fault, item = .error fault ∧ after = ⟨c.stop, c.stop⟩ := by
  unfold next? at step
  split at step
  · split at step
    · cases step
      exact Or.inr ⟨_, rfl, rfl⟩
    · rename_i size word
      dsimp only at step
      split at step
      · rename_i fits
        cases step
        have here : bytes.word? c.position 4 = some size := by rwa [if_pos (by omega)] at word
        exact Or.inl ⟨size, here, fits.1, fits.2, rfl, rfl⟩
      · cases step
        exact Or.inr ⟨_, rfl, rfl⟩
  · cases step

theorem extent_of_next {c after : Cursor} {element : Extent}
    (step : c.next? bytes = some (.ok element, after)) :
    element.start = c.position + 4 ∧ element.start ≤ element.stop ∧ element.stop ≤ c.stop := by
  rcases next_cases step with ⟨size, _, _, inside, same, _⟩ | ⟨_, same, _⟩
  · cases same
    exact ⟨rfl, Nat.le_add_right .., inside⟩
  · cases same

theorem finished_of_fault {c after : Cursor} {fault : Fault}
    (step : c.next? bytes = some (.error fault, after)) : after.next? bytes = none := by
  rcases next_cases step with ⟨_, _, _, _, same, _⟩ | ⟨_, _, rfl⟩
  · cases same
  · exact next_eq_none.mpr (Nat.le_refl _)

theorem elements_none {c : Cursor} (finished : c.next? bytes = none) : c.elements bytes = [] := by
  rw [elements, items_none finished, List.filterMap_nil]

theorem elements_some {c after : Cursor} {item : Except Fault Extent}
    (step : c.next? bytes = some (item, after)) :
    c.elements bytes = item.toOption.toList ++ after.elements bytes := by
  rw [elements, items_some step]
  cases item <;> rfl

theorem elements_within {c : Cursor} {element : Extent} (member : element ∈ c.elements bytes) :
    element.start ≤ element.stop ∧ element.stop ≤ c.stop := by
  fun_induction c.items bytes with
  | case1 c finished =>
    rw [elements_none finished] at member
    cases member
  | case2 c item after step ih =>
    have same := (next_advances step).2.2
    rw [elements_some step] at member
    rcases List.mem_append.mp member with now | later
    · cases item with
      | error fault => cases now
      | ok found =>
        cases List.mem_singleton.mp now
        exact (extent_of_next step).2
    · exact same ▸ ih later

/-- A cursor gives elements, then at most one fault, and nothing more. -/
theorem items_eq (c : Cursor) :
    ∃ fault : Option Fault, c.items bytes = (c.elements bytes).map .ok ++ fault.toList.map .error := by
  fun_induction c.items bytes with
  | case1 c finished => exact ⟨none, by rw [elements_none finished]; rfl⟩
  | case2 c item after step ih =>
    obtain ⟨fault, rest⟩ := ih
    cases item with
    | ok found => exact ⟨fault, by rw [elements_some step, rest]; rfl⟩
    | error now =>
      have finished := finished_of_fault step
      exact ⟨some now, by rw [elements_some step, items_none finished, elements_none finished]; rfl⟩

end Cursor

end OSC.Bundle
