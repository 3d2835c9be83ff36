import OSC.Tag

/-! Arrays in a tag string: where the array that opens at a place is closed. -/

namespace OSC.Brackets

/-- Scans the tags of an array, `passed` of which are behind, with `inner` arrays open in it, for the tag
that closes it. -/
def close? : (inner passed : Nat) → Bytes → Option Nat
  | _, _, [] => none
  | inner, passed, b :: rest =>
    match Tag.ofByte? b, inner with
    | none, _ => none
    | some .arrayClose, 0 => some passed
    | some .arrayClose, inner + 1 => close? inner (passed + 1) rest
    | some .arrayOpen, inner => close? (inner + 1) (passed + 1) rest
    | some _, inner => close? inner (passed + 1) rest

/-- Distance from the array that opens at `offset` to the tag that closes it. -/
def length? (bytes : Bytes) (offset : Nat) : Option Nat :=
  if bytes[offset]? = some Tag.arrayOpen.toByte then close? 0 1 (bytes.drop (offset + 1)) else none

variable {bytes rest : Bytes} {b : UInt8} {tag : Tag} {inner passed depth offset n m : Nat}

def opens (tags : Bytes) : Nat := tags.count Tag.arrayOpen.toByte

def closes (tags : Bytes) : Nat := tags.count Tag.arrayClose.toByte

/-- How many arrays are open behind a tag when so many are open before it. -/
def after (depth : Nat) : Tag → Nat
  | .arrayOpen => depth + 1
  | .arrayClose => depth - 1
  | _ => depth

theorem count_cons (known : Tag.ofByte? b = some tag) (other : Tag) (rest : Bytes) :
    (b :: rest).count other.toByte = rest.count other.toByte + if tag = other then 1 else 0 := by
  have byte := Tag.toByte_of_ofByte known
  have same : tag.toByte = other.toByte ↔ tag = other := by
    refine ⟨fun equal => ?_, fun equal => equal ▸ rfl⟩
    have tags := Tag.ofByte_toByte tag
    rw [equal, Tag.ofByte_toByte] at tags
    exact (Option.some.inj tags).symm
  rw [List.count_cons, ← byte]
  simp only [beq_iff_eq, same]

/-- What opens and closes behind a tag, and how many arrays are open there, is what opens and closes from the tag on. -/
theorem balance_cons (known : Tag.ofByte? b = some tag) (positive : 0 < depth) (rest : Bytes) :
    opens (b :: rest) + depth + closes rest = opens rest + after depth tag + closes (b :: rest) := by
  rw [opens, opens, closes, closes, count_cons known, count_cons known]
  cases tag with
  | arrayOpen =>
    rw [if_pos rfl, if_neg nofun, after]
    omega
  | arrayClose =>
    rw [if_neg nofun, if_pos rfl, after]
    omega
  | _ =>
    simp only [reduceCtorEq, if_false, after]
    omega

theorem close_unknown (unknown : Tag.ofByte? b = none) : close? inner passed (b :: rest) = none := by
  rw [close?.eq_def]
  simp only [unknown]

theorem close_known (known : Tag.ofByte? b = some tag) :
    close? inner passed (b :: rest) =
      if after (inner + 1) tag = 0 then some passed else close? (after (inner + 1) tag - 1) (passed + 1) rest := by
  rw [close?.eq_def]
  simp only [known]
  cases tag with
  | arrayClose => cases inner <;> rfl
  | _ => rfl

/-- Of the bytes the first `n` are tags, behind none of which the arrays that are open before them are all closed. -/
structure Open (depth : Nat) (rest : Bytes) (n : Nat) : Prop where
  tags : ∀ i < n, ∃ b tag, rest[i]? = some b ∧ Tag.ofByte? b = some tag
  ahead : ∀ k ≤ n, closes (rest.take k) < opens (rest.take k) + depth

theorem Open.nil (positive : 0 < depth) : Open depth rest 0 where
  tags := nofun
  ahead := by
    intro k none
    rw [Nat.le_zero.mp none, List.take_zero]
    exact Nat.lt_of_lt_of_le positive (Nat.le_add_left ..)

theorem Open.cons (known : Tag.ofByte? b = some tag) (positive : 0 < depth) (more : Open (after depth tag) rest n) :
    Open depth (b :: rest) (n + 1) where
  tags := by
    intro i less
    cases i with
    | zero => exact ⟨b, tag, rfl, known⟩
    | succ i => exact more.tags i (Nat.lt_of_succ_lt_succ less)
  ahead := by
    intro k less
    cases k with
    | zero => exact (Open.nil positive).ahead 0 (Nat.le_refl 0)
    | succ k =>
      have later := more.ahead k (Nat.le_of_succ_le_succ less)
      have balance := balance_cons known positive (rest.take k)
      rw [List.take_succ_cons]
      omega

/-- A tag behind open arrays closes the last of them. -/
structure Closed (depth : Nat) (rest : Bytes) (n : Nat) : Prop where
  before : Open depth rest n
  tag : ∃ b tag, rest[n]? = some b ∧ Tag.ofByte? b = some tag
  balanced : closes (rest.take (n + 1)) = opens (rest.take (n + 1)) + depth

/-- What is behind open arrays is no tag, or there is nothing. -/
structure Unclosed (depth : Nat) (rest : Bytes) (n : Nat) : Prop where
  before : Open depth rest n
  stop : ∀ b, rest[n]? = some b → Tag.ofByte? b = none

theorem Closed.last (known : Tag.ofByte? b = some tag) (positive : 0 < depth) (last : after depth tag = 0) :
    Closed depth (b :: rest) 0 where
  before := .nil positive
  tag := ⟨b, tag, rfl, known⟩
  balanced := by
    have balance := balance_cons known positive []
    have none : opens [] = 0 ∧ closes [] = 0 := ⟨rfl, rfl⟩
    rw [List.take_succ_cons, List.take_zero]
    omega

theorem Closed.cons (known : Tag.ofByte? b = some tag) (positive : 0 < depth)
    (more : Closed (after depth tag) rest n) : Closed depth (b :: rest) (n + 1) where
  before := more.before.cons known positive
  tag := more.tag
  balanced := by
    have later := more.balanced
    have balance := balance_cons known positive (rest.take (n + 1))
    rw [List.take_succ_cons]
    omega

theorem Closed.unique (closed : Closed depth rest n) (closed' : Closed depth rest m) : n = m := by
  have later {n m : Nat} (closed : Closed depth rest n) (closed' : Closed depth rest m) : ¬ n < m := by
    intro less
    have ahead := closed'.before.ahead (n + 1) less
    have balanced := closed.balanced
    omega
  exact Nat.le_antisymm (Nat.not_lt.mp (later closed' closed)) (Nat.not_lt.mp (later closed closed'))

theorem Closed.not_unclosed (closed : Closed depth rest n) : ¬ Unclosed depth rest m := by
  intro unclosed
  obtain ⟨b, tag, here, known⟩ := closed.tag
  rcases Nat.lt_trichotomy n m with less | rfl | less
  · have ahead := unclosed.before.ahead (n + 1) less
    have balanced := closed.balanced
    omega
  · rw [unclosed.stop b here] at known
    cases known
  · obtain ⟨b', tag', here', known'⟩ := closed.before.tags m less
    rw [unclosed.stop b' here'] at known'
    cases known'

/-- A scan ends at the tag that closes what is open, or where there is no tag any more. -/
theorem close_cases (inner passed : Nat) (rest : Bytes) :
    (∃ n, close? inner passed rest = some (passed + n) ∧ Closed (inner + 1) rest n) ∨
      close? inner passed rest = none ∧ ∃ n, Unclosed (inner + 1) rest n := by
  induction rest generalizing inner passed with
  | nil => exact Or.inr ⟨rfl, 0, .nil (Nat.succ_pos inner), nofun⟩
  | cons b rest ih =>
    cases known : Tag.ofByte? b with
    | none =>
      refine Or.inr ⟨close_unknown known, 0, .nil (Nat.succ_pos inner), ?_⟩
      intro _ here
      cases here
      exact known
    | some tag =>
      rw [close_known known]
      by_cases last : after (inner + 1) tag = 0
      · rw [if_pos last]
        exact Or.inl ⟨0, rfl, .last known (Nat.succ_pos inner) last⟩
      · rw [if_neg last]
        have depth : after (inner + 1) tag - 1 + 1 = after (inner + 1) tag :=
          Nat.sub_add_cancel (Nat.pos_of_ne_zero last)
        rcases ih (after (inner + 1) tag - 1) (passed + 1) with ⟨n, found, closed⟩ | ⟨none, n, unclosed⟩
        · rw [depth] at closed
          refine Or.inl ⟨n + 1, ?_, closed.cons known (Nat.succ_pos inner)⟩
          rw [found, Nat.add_right_comm, Nat.add_assoc]
        · rw [depth] at unclosed
          exact Or.inr ⟨none, n + 1, unclosed.before.cons known (Nat.succ_pos inner), unclosed.stop⟩

/-- The first `n` of the bytes at a place. -/
def run (bytes : Bytes) (offset n : Nat) : Bytes := (bytes.drop offset).take n

/-- The bytes from a place to the `n`th behind it are an array: tags, the first of which opens it, and the last of which
is the first to make as many close as open. -/
structure IsArray (bytes : Bytes) (offset n : Nat) : Prop where
  opening : bytes[offset]? = some Tag.arrayOpen.toByte
  tags : ∀ i ≤ n, ∃ b tag, bytes[offset + i]? = some b ∧ Tag.ofByte? b = some tag
  balanced : opens (run bytes offset (n + 1)) = closes (run bytes offset (n + 1))
  ahead : ∀ k, 0 < k → k ≤ n → closes (run bytes offset k) < opens (run bytes offset k)

/-- An array opens at a place, and is still open where there is no tag any more. -/
structure Unfinished (bytes : Bytes) (offset n : Nat) : Prop where
  opening : bytes[offset]? = some Tag.arrayOpen.toByte
  tags : ∀ i < n, ∃ b tag, bytes[offset + i]? = some b ∧ Tag.ofByte? b = some tag
  stop : ∀ b, bytes[offset + n]? = some b → Tag.ofByte? b = none
  ahead : ∀ k, 0 < k → k ≤ n → closes (run bytes offset k) < opens (run bytes offset k)

theorem drop_opening (opening : bytes[offset]? = some Tag.arrayOpen.toByte) :
    bytes.drop offset = Tag.arrayOpen.toByte :: bytes.drop (offset + 1) := by
  obtain ⟨inside, here⟩ := List.getElem?_eq_some_iff.mp opening
  rw [List.drop_eq_getElem_cons inside, here]

theorem opens_run (opening : bytes[offset]? = some Tag.arrayOpen.toByte) (k : Nat) :
    opens (run bytes offset (k + 1)) = opens ((bytes.drop (offset + 1)).take k) + 1 := by
  rw [run, drop_opening opening, List.take_succ_cons, opens, count_cons (Tag.ofByte_toByte .arrayOpen), if_pos rfl,
    opens]

theorem closes_run (opening : bytes[offset]? = some Tag.arrayOpen.toByte) (k : Nat) :
    closes (run bytes offset (k + 1)) = closes ((bytes.drop (offset + 1)).take k) := by
  rw [run, drop_opening opening, List.take_succ_cons, closes, count_cons (Tag.ofByte_toByte .arrayOpen), if_neg nofun,
    Nat.add_zero, closes]

theorem getElem_rest (bytes : Bytes) (offset i : Nat) : (bytes.drop (offset + 1))[i]? = bytes[offset + (i + 1)]? := by
  rw [List.getElem?_drop, Nat.add_assoc, Nat.add_comm 1]

/-- What is behind the tag that opens an array is open by one. -/
theorem open_iff (opening : bytes[offset]? = some Tag.arrayOpen.toByte) (n : Nat) :
    Open 1 (bytes.drop (offset + 1)) n ↔
      (∀ i < n + 1, ∃ b tag, bytes[offset + i]? = some b ∧ Tag.ofByte? b = some tag) ∧
        ∀ k, 0 < k → k ≤ n + 1 → closes (run bytes offset k) < opens (run bytes offset k) := by
  constructor
  · intro before
    refine ⟨fun i less => ?_, fun k positive less => ?_⟩
    · cases i with
      | zero => exact ⟨_, _, opening, Tag.ofByte_toByte _⟩
      | succ i =>
        rw [← getElem_rest]
        exact before.tags i (Nat.lt_of_succ_lt_succ less)
    · obtain ⟨k, rfl⟩ := Nat.exists_eq_add_of_lt positive
      rw [Nat.zero_add] at less ⊢
      rw [opens_run opening, closes_run opening]
      exact before.ahead k (Nat.le_of_succ_le_succ less)
  · rintro ⟨tags, ahead⟩
    refine ⟨fun i less => ?_, fun k less => ?_⟩
    · rw [getElem_rest]
      exact tags (i + 1) (Nat.succ_lt_succ less)
    · have later := ahead (k + 1) (Nat.succ_pos k) (Nat.succ_le_succ less)
      rwa [opens_run opening, closes_run opening] at later

theorem isArray_iff (opening : bytes[offset]? = some Tag.arrayOpen.toByte) :
    IsArray bytes offset n ↔ ∃ m, n = m + 1 ∧ Closed 1 (bytes.drop (offset + 1)) m := by
  constructor
  · intro array
    cases n with
    | zero =>
      have balanced := array.balanced
      rw [opens_run opening, closes_run opening] at balanced
      cases balanced
    | succ m =>
      have balanced := array.balanced
      have last := array.tags (m + 1) (Nat.le_refl _)
      rw [opens_run opening, closes_run opening] at balanced
      rw [← getElem_rest] at last
      have before := (open_iff opening m).mpr ⟨fun i less => array.tags i (Nat.le_of_lt less), array.ahead⟩
      exact ⟨m, rfl, before, last, balanced.symm⟩
  · rintro ⟨m, rfl, closed⟩
    obtain ⟨tags, ahead⟩ := (open_iff opening m).mp closed.before
    refine ⟨opening, fun i less => ?_, ?_, ahead⟩
    · rcases Nat.lt_or_eq_of_le less with before | rfl
      · exact tags i before
      · rw [← getElem_rest]
        exact closed.tag
    · rw [opens_run opening, closes_run opening]
      exact closed.balanced.symm

theorem unfinished_iff (opening : bytes[offset]? = some Tag.arrayOpen.toByte) :
    Unfinished bytes offset n ↔ ∃ m, n = m + 1 ∧ Unclosed 1 (bytes.drop (offset + 1)) m := by
  constructor
  · intro unfinished
    cases n with
    | zero =>
      have none := unfinished.stop _ opening
      rw [Tag.ofByte_toByte] at none
      cases none
    | succ m =>
      refine ⟨m, rfl, (open_iff opening m).mpr ⟨unfinished.tags, unfinished.ahead⟩, fun b here => ?_⟩
      rw [getElem_rest] at here
      exact unfinished.stop b here
  · rintro ⟨m, rfl, unclosed⟩
    obtain ⟨tags, ahead⟩ := (open_iff opening m).mp unclosed.before
    refine ⟨opening, tags, fun b here => ?_, ahead⟩
    rw [← getElem_rest] at here
    exact unclosed.stop b here

theorem length_cases (opening : bytes[offset]? = some Tag.arrayOpen.toByte) :
    (∃ m, length? bytes offset = some (m + 1) ∧ Closed 1 (bytes.drop (offset + 1)) m) ∨
      length? bytes offset = none ∧ ∃ m, Unclosed 1 (bytes.drop (offset + 1)) m := by
  rw [length?, if_pos opening]
  rcases close_cases 0 1 (bytes.drop (offset + 1)) with ⟨m, found, closed⟩ | unclosed
  · exact Or.inl ⟨m, found.trans (congrArg some (Nat.add_comm 1 m)), closed⟩
  · exact Or.inr unclosed

theorem length_eq_some (bytes : Bytes) (offset n : Nat) : length? bytes offset = some n ↔ IsArray bytes offset n := by
  by_cases opening : bytes[offset]? = some Tag.arrayOpen.toByte
  · rw [isArray_iff opening]
    rcases length_cases opening with ⟨m, found, closed⟩ | ⟨none, m, unclosed⟩
    · rw [found, Option.some.injEq]
      refine ⟨fun same => ⟨m, same.symm, closed⟩, ?_⟩
      rintro ⟨m', rfl, closed'⟩
      rw [closed.unique closed']
    · rw [none]
      refine iff_of_false nofun ?_
      rintro ⟨m', _, closed⟩
      exact closed.not_unclosed unclosed
  · rw [length?, if_neg opening]
    exact iff_of_false nofun fun array => opening array.opening

theorem length_eq_none (bytes : Bytes) (offset : Nat) :
    length? bytes offset = none ↔
      bytes[offset]? ≠ some Tag.arrayOpen.toByte ∨ ∃ n, Unfinished bytes offset n := by
  by_cases opening : bytes[offset]? = some Tag.arrayOpen.toByte
  · rw [or_iff_right (not_not_intro opening)]
    rcases length_cases opening with ⟨m, found, closed⟩ | ⟨none, m, unclosed⟩
    · rw [found]
      refine iff_of_false nofun ?_
      rintro ⟨n, unfinished⟩
      obtain ⟨m', _, unclosed⟩ := (unfinished_iff opening).mp unfinished
      exact closed.not_unclosed unclosed
    · exact iff_of_true none ⟨m + 1, (unfinished_iff opening).mpr ⟨m, rfl, unclosed⟩⟩
  · rw [length?, if_neg opening]
    exact iff_of_true rfl (Or.inl opening)

end OSC.Brackets
