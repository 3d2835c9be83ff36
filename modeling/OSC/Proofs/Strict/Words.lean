import OSC.Padding
import OSC.Proofs.Slices

namespace OSC

/-- What a checked step can run into: a number that is no 64-bit word, or a place outside a list. -/
inductive Breach
  | overflow
  | outside
  deriving DecidableEq

/-- A computation that checks each of its sums, slices and places, and ends at the first breach. Those in this
namespace are, step by step, what is done to a packet buffer; all of them turn out to be without a breach. -/
abbrev Strict := Except Breach

namespace Strict

variable {α β : Type}

@[simp] theorem ok_bind (a : α) (f : α → Strict β) : (Except.ok a >>= f : Strict β) = f a := rfl

def add (m n : Nat) : Strict Nat := if m + n < 2 ^ 64 then .ok (m + n) else .error .overflow

def sub (m n : Nat) : Strict Nat := if n ≤ m then .ok (m - n) else .error .overflow

def mul (m n : Nat) : Strict Nat := if m * n < 2 ^ 64 then .ok (m * n) else .error .overflow

/-- A sum that is asked for with care; it is no breach when it is no word. -/
def sum? (m n : Nat) : Option Nat := if m + n < 2 ^ 64 then some (m + n) else none

def fetch (xs : List α) (index : Nat) : Strict α :=
  match xs[index]? with
  | some x => .ok x
  | none => .error .outside

def store (xs : List α) (index : Nat) (x : α) : Strict (List α) :=
  if index < xs.length then .ok (xs.set index x) else .error .outside

def dropping (xs : List α) (start : Nat) : Strict (List α) :=
  if start ≤ xs.length then .ok (xs.drop start) else .error .outside

def taking (xs : List α) (stop : Nat) : Strict (List α) :=
  if stop ≤ xs.length then .ok (xs.take stop) else .error .outside

def slice (xs : List α) (start stop : Nat) : Strict (List α) :=
  if start ≤ stop ∧ stop ≤ xs.length then .ok ((xs.drop start).take (stop - start)) else .error .outside

/-- A slice that is asked for with care. -/
def slice? (xs : List α) (start stop : Nat) : Option (List α) :=
  if start ≤ stop ∧ stop ≤ xs.length then some ((xs.drop start).take (stop - start)) else none

def drop? (xs : List α) (start : Nat) : Option (List α) :=
  if start ≤ xs.length then some (xs.drop start) else none

theorem add_eq {m n : Nat} (small : m + n < 2 ^ 64) : add m n = .ok (m + n) := if_pos small

theorem sub_eq {m n : Nat} (less : n ≤ m) : sub m n = .ok (m - n) := if_pos less

theorem mul_eq {m n : Nat} (small : m * n < 2 ^ 64) : mul m n = .ok (m * n) := if_pos small

/-- A sum that stays below a word is a word. -/
theorem filter_sum {m n stop : Nat} (small : stop < 2 ^ 64) :
    (sum? m n).filter (· ≤ stop) = if m + n ≤ stop then some (m + n) else none := by
  unfold sum?
  by_cases inside : m + n ≤ stop
  · rw [if_pos (by omega), if_pos inside, Option.filter_some, if_pos (decide_eq_true inside)]
  · rw [if_neg inside, Option.filter_eq_none_iff]
    intro sum word fits
    split at word
    · cases word
      exact inside (of_decide_eq_true fits)
    · cases word

theorem fetch_eq {xs : List α} {index : Nat} {x : α} (found : xs[index]? = some x) : fetch xs index = .ok x := by
  rw [fetch, found]

theorem store_eq {xs : List α} {index : Nat} (inside : index < xs.length) (x : α) :
    store xs index x = .ok (xs.set index x) := if_pos inside

theorem dropping_eq {xs : List α} {start : Nat} (inside : start ≤ xs.length) :
    dropping xs start = .ok (xs.drop start) := if_pos inside

theorem taking_eq {xs : List α} {stop : Nat} (inside : stop ≤ xs.length) : taking xs stop = .ok (xs.take stop) :=
  if_pos inside

theorem slice_eq {xs : List α} {start stop : Nat} (order : start ≤ stop) (inside : stop ≤ xs.length) :
    slice xs start stop = .ok ((xs.drop start).take (stop - start)) := if_pos ⟨order, inside⟩

def align4 (n : Nat) : Strict Nat := do
  let sum ← add n 3
  return sum / 4 * 4

def paddedLength (n : Nat) : Strict Nat := do
  let sum ← add n 4
  return sum / 4 * 4

theorem align4_eq {n : Nat} (small : n + 3 < 2 ^ 64) : align4 n = .ok (OSC.align4 n) := by
  rw [align4, add_eq small]
  rfl

theorem paddedLength_eq {n : Nat} (small : n + 4 < 2 ^ 64) : paddedLength n = .ok (OSC.paddedLength n) := by
  rw [paddedLength, add_eq small]
  rfl

/-- The first bytes, each of them looked up. -/
def front (bytes : Bytes) : Nat → Strict Bytes
  | 0 => .ok []
  | n + 1 => do
    let before ← front bytes n
    let last ← fetch bytes n
    return before ++ [last]

theorem front_eq {bytes : Bytes} {n : Nat} (inside : n ≤ bytes.length) : front bytes n = .ok (bytes.take n) := by
  induction n with
  | zero => rfl
  | succ n ih =>
    have last : bytes[n]? = some bytes[n] := List.getElem?_eq_getElem inside
    rw [front, ih (by omega), ok_bind, fetch_eq last, ok_bind, List.take_add_one, last]
    rfl

theorem slice_width (bytes : Bytes) (offset width : Nat) :
    slice? bytes offset (offset + width) = bytes.slice? offset width := by
  unfold slice? Bytes.slice?
  by_cases inside : offset + width ≤ bytes.length
  · rw [if_pos inside, if_pos ⟨Nat.le_add_right .., inside⟩, Nat.add_sub_cancel_left]
  · rw [if_neg inside, if_neg fun within => inside within.2]

/-- The `width` bytes at `offset`, asked for with care: their end need be neither inside nor a word. -/
def piece? (bytes : Bytes) (offset width : Nat) : Option Bytes :=
  (sum? offset width).bind (slice? bytes offset)

theorem piece_eq {bytes : Bytes} (small : bytes.length < Bytes.limit) (offset width : Nat) :
    piece? bytes offset width = bytes.slice? offset width := by
  unfold Bytes.limit at small
  unfold piece? sum?
  split
  · exact slice_width bytes offset width
  · exact (Bytes.slice_eq_none.mpr (by omega)).symm

/-- The big-endian number in the `width` bytes at `offset`, each of them looked up. -/
def word? (bytes : Bytes) (offset width : Nat) : Strict (Option Nat) :=
  match piece? bytes offset width with
  | none => .ok none
  | some piece => do
    let digits ← front piece width
    return some digits.toNat

theorem word_eq {bytes : Bytes} (small : bytes.length < Bytes.limit) (offset width : Nat) :
    word? bytes offset width = .ok (bytes.word? offset width) := by
  rw [word?, piece_eq small, Bytes.word?]
  cases found : bytes.slice? offset width with
  | none => rfl
  | some piece =>
    have length := Bytes.length_slice found
    have whole : piece.take width = piece := List.take_of_length_le (by omega)
    have digits := front_eq (Nat.le_of_eq length.symm)
    simp only [digits, whole]
    rfl

end Strict

end OSC
