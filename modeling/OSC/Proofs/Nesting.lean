import OSC.Brackets
import OSC.Proofs.Strict.Words

namespace OSC

namespace Strict

/-- Scans tags with a count of the arrays that are open, `passed` of the tags being behind. -/
def closeFrom (depth passed : Nat) : Bytes → Strict (Option Nat)
  | [] => return none
  | b :: rest =>
    match Tag.ofByte? b with
    | none => return none
    | some .arrayOpen => do
      let depth ← add depth 1
      let passed ← add passed 1
      closeFrom depth passed rest
    | some .arrayClose => do
      let depth ← sub depth 1
      if depth = 0 then return some passed
      else
        let passed ← add passed 1
        closeFrom depth passed rest
    | some _ => do
      let passed ← add passed 1
      closeFrom depth passed rest

def arrayLength (bytes : Bytes) (offset : Nat) : Strict (Option Nat) :=
  if bytes[offset]? = some Tag.arrayOpen.toByte then do
    let rest ← dropping bytes offset
    closeFrom 0 0 rest
  else return none

open Brackets

variable {bytes rest : Bytes} {b : UInt8} {tag : Tag} {inner depth passed offset : Nat}

theorem closeFrom_unknown (unknown : Tag.ofByte? b = none) : closeFrom depth passed (b :: rest) = .ok none := by
  rw [closeFrom.eq_def]
  simp only [unknown]
  rfl

/-- While an array is open, one that closes can be counted. -/
theorem closeFrom_known (known : Tag.ofByte? b = some tag) (positive : 0 < depth) (shallow : depth + 1 < 2 ^ 64)
    (short : passed + 1 < 2 ^ 64) :
    closeFrom depth passed (b :: rest) =
      if after depth tag = 0 then .ok (some passed) else closeFrom (after depth tag) (passed + 1) rest := by
  have still : depth ≠ 0 := Nat.ne_of_gt positive
  rw [closeFrom.eq_def]
  simp only [known]
  cases tag with
  | arrayOpen =>
    rw [add_eq shallow, ok_bind, add_eq short, ok_bind, after, if_neg (Nat.succ_ne_zero depth)]
  | arrayClose =>
    rw [sub_eq positive, ok_bind, add_eq short, ok_bind, after]
    rfl
  | _ =>
    simp only [add_eq short, ok_bind, after, still, if_false]

/-- The scan that counts comes to the same end, and its count is never taken below zero. -/
theorem closeFrom_eq (shallow : inner + 1 + rest.length < 2 ^ 64) (short : passed + rest.length < 2 ^ 64) :
    closeFrom (inner + 1) passed rest = .ok (close? inner passed rest) := by
  induction rest generalizing inner passed with
  | nil => rfl
  | cons b rest ih =>
    rw [List.length_cons] at shallow short
    cases known : Tag.ofByte? b with
    | none => rw [closeFrom_unknown known, close_unknown known]
    | some tag =>
      rw [closeFrom_known known (Nat.succ_pos inner) (by omega) (by omega), close_known known]
      by_cases last : after (inner + 1) tag = 0
      · rw [if_pos last, if_pos last]
      · have depth : after (inner + 1) tag - 1 + 1 = after (inner + 1) tag :=
          Nat.sub_add_cancel (Nat.pos_of_ne_zero last)
        have deeper : after (inner + 1) tag ≤ inner + 1 + 1 := by
          cases tag with
          | arrayOpen => exact Nat.le_refl _
          | arrayClose => exact Nat.le_trans (Nat.sub_le ..) (Nat.le_succ _)
          | _ => exact Nat.le_succ _
        have next : closeFrom (after (inner + 1) tag - 1 + 1) (passed + 1) rest =
            .ok (close? (after (inner + 1) tag - 1) (passed + 1) rest) := ih (by omega) (by omega)
        rw [if_neg last, if_neg last, ← next, depth]

theorem arrayLength_eq (small : bytes.length < Bytes.limit) (offset : Nat) :
    arrayLength bytes offset = .ok (length? bytes offset) := by
  unfold Bytes.limit at small
  unfold arrayLength length?
  by_cases opening : bytes[offset]? = some Tag.arrayOpen.toByte
  · have inside := (List.getElem?_eq_some_iff.mp opening).1
    have fewer : (bytes.drop (offset + 1)).length ≤ bytes.length := by
      rw [List.length_drop]
      omega
    have first : closeFrom 0 0 (Tag.arrayOpen.toByte :: bytes.drop (offset + 1)) =
        closeFrom 1 1 (bytes.drop (offset + 1)) := rfl
    rw [if_pos opening, if_pos opening, dropping_eq (Nat.le_of_lt inside), ok_bind, drop_opening opening, first]
    exact closeFrom_eq (by omega) (by omega)
  · rw [if_neg opening, if_neg opening]
    rfl

/-- The distance that is given for a place is that to the end of the array there. There is none just when no array opens
there, or when what comes before its end is no tag or the end of the bytes. The count of open arrays is not taken below
zero for that, nor is any other bound breached, whatever the bytes are. -/
theorem arrayLength_matches (bytes : Bytes) (offset : Nat) :
    (∀ n, length? bytes offset = some n ↔ IsArray bytes offset n) ∧
    (length? bytes offset = none ↔
      bytes[offset]? ≠ some Tag.arrayOpen.toByte ∨ ∃ n, Unfinished bytes offset n) ∧
    (bytes.length < Bytes.limit → arrayLength bytes offset = .ok (length? bytes offset)) :=
  ⟨length_eq_some bytes offset, length_eq_none bytes offset, fun small => arrayLength_eq small offset⟩

/-- Two arrays, one with another in it, and a third that is not closed before a byte that is no tag. -/
theorem arrayLength_matches_nested :
    let bytes : Bytes := [44, 91, 105, 91, 93, 102, 93, 91, 93, 91, 115, 0, 93]
    bytes.length < Bytes.limit ∧ length? bytes 1 = some 5 ∧ IsArray bytes 1 5 ∧ ¬ IsArray bytes 1 7 ∧
      IsArray bytes 3 1 ∧ length? bytes 9 = none ∧ (∃ n, Unfinished bytes 9 n) ∧ ¬ IsArray bytes 9 3 ∧
      bytes[0]? ≠ some Tag.arrayOpen.toByte ∧ length? bytes 0 = none ∧ length? bytes (2 ^ 64 - 1) = none ∧
      arrayLength bytes 1 = .ok (some 5) ∧ arrayLength bytes 9 = .ok none := by
  intro bytes
  have small : bytes.length < Bytes.limit := by decide
  obtain ⟨nested, _, counted⟩ := arrayLength_matches bytes 1
  obtain ⟨inner, _, _⟩ := arrayLength_matches bytes 3
  obtain ⟨unclosed, none, countedNone⟩ := arrayLength_matches bytes 9
  have found : length? bytes 1 = some 5 := by decide
  have missing : length? bytes 9 = .none := by decide
  have opening : ¬ bytes[9]? ≠ some Tag.arrayOpen.toByte := by decide
  refine ⟨small, found, (nested 5).mp found, fun array => ?_, (inner 1).mp (by decide), missing,
    (none.mp missing).resolve_left opening, fun array => ?_, by decide, by decide, by decide, ?_, ?_⟩
  · have other := (nested 7).mpr array
    rw [found] at other
    cases other
  · have other := (unclosed 3).mpr array
    rw [missing] at other
    cases other
  · rw [counted small, found]
  · rw [countedNone small, missing]

end Strict

end OSC
