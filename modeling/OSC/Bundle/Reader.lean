import OSC.Error
import OSC.Time

namespace OSC

/-- Bytes from `start` up to, but not including, `stop`. -/
structure Extent where
  start : Nat
  stop : Nat
  deriving DecidableEq

namespace Bundle

/-- The padded text `#bundle`. -/
def marker : Bytes := [35, 98, 117, 110, 100, 108, 101, 0]

def isMarkedAt (bytes : Bytes) (offset : Nat) : Bool := bytes.slice? offset 8 == some marker

inductive Fault
  | unmarked
  | noTime
  | noSize
  | oversized
  deriving DecidableEq

def Fault.reason : Fault → String
  | unmarked => "missing #bundle prefix"
  | noTime => "truncated time tag"
  | noSize => "truncated element size"
  | oversized => "element size exceeds bundle"

def Fault.toError (fault : Fault) : Error := .malformedBundle fault.reason

/-- A place among the elements of a bundle, and where the bundle ends. -/
structure Cursor where
  position : Nat
  stop : Nat
  deriving DecidableEq

/-- The time tag of the bundle at `start`, which ends no later than `stop`, and a cursor at its first
element. -/
def open? (bytes : Bytes) (start stop : Nat) : Except Fault (TimeTag × Cursor) :=
  let stop := min stop bytes.length
  if isMarkedAt (bytes.take stop) start then
    match Bytes.word? (bytes.take stop) (start + 8) 8 with
    | some time => .ok (.ofNat time, ⟨start + 16, stop⟩)
    | none => .error .noTime
  else .error .unmarked

namespace Cursor

/-- The content of the element at the cursor and the cursor behind it. An element is its size, a number
that is not negative, and that many bytes of content. After a fault the cursor is at the end. -/
def next? (bytes : Bytes) (c : Cursor) : Option (Except Fault Extent × Cursor) :=
  if c.position < c.stop then
    match if c.position + 4 ≤ c.stop then bytes.word? c.position 4 else none with
    | none => some (.error .noSize, ⟨c.stop, c.stop⟩)
    | some size =>
      let content : Extent := ⟨c.position + 4, c.position + 4 + size⟩
      if size < 2 ^ 31 ∧ content.stop ≤ c.stop then some (.ok content, ⟨content.stop, c.stop⟩)
      else some (.error .oversized, ⟨c.stop, c.stop⟩)
  else none

theorem next_advances {bytes : Bytes} {c after : Cursor} {item : Except Fault Extent}
    (step : c.next? bytes = some (item, after)) :
    c.position < after.position ∧ after.position ≤ after.stop ∧ after.stop = c.stop := by
  unfold next? at step
  split at step
  · split at step
    · cases step
      exact ⟨by assumption, Nat.le_refl _, rfl⟩
    · dsimp only at step
      split at step
      · rename_i fits
        cases step
        exact ⟨by dsimp only; omega, fits.2, rfl⟩
      · cases step
        exact ⟨by assumption, Nat.le_refl _, rfl⟩
  · cases step

/-- All that is left from the cursor on: elements, and a fault where they cannot go on. -/
def items (bytes : Bytes) (c : Cursor) : List (Except Fault Extent) :=
  match _step : c.next? bytes with
  | none => []
  | some (item, after) => item :: items bytes after
termination_by c.stop - c.position
decreasing_by
  have := next_advances (by assumption)
  omega

/-- The elements before the first fault. -/
def elements (bytes : Bytes) (c : Cursor) : List Extent := (c.items bytes).filterMap (·.toOption)

end Cursor

end Bundle

end OSC
