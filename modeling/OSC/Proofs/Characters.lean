import OSC.Proofs.Texts

namespace OSC.Utf8

variable {b : UInt8} {c : Char} {bytes rest : Bytes} {owed low high bits size code n : Nat}

/-- What the first byte of a character tells: how many bytes follow it, between which bounds the first of these lies,
and the highest bits of the code. -/
structure Lead where
  owed : Nat
  low : Nat
  high : Nat
  bits : Nat

/-- Bytes that continue a character begin no other, and those that would begin a longer form of a short one, or a number
past the last code point, begin none. -/
def lead? (b : Nat) : Option Lead :=
  if b < 0x80 then some ⟨0, 0x80, 0xBF, b⟩
  else if b < 0xC2 then none
  else if b < 0xE0 then some ⟨1, 0x80, 0xBF, b - 0xC0⟩
  else if b < 0xF0 then
    some ⟨2, if b = 0xE0 then 0xA0 else 0x80, if b = 0xED then 0x9F else 0xBF, b - 0xE0⟩
  else if b < 0xF5 then
    some ⟨3, if b = 0xF0 then 0x90 else 0x80, if b = 0xF4 then 0x8F else 0xBF, b - 0xF0⟩
  else none

theorem lead_cases {b : Nat} {l : Lead} (found : lead? b = some l) :
    b < 0x80 ∧ l = ⟨0, 0x80, 0xBF, b⟩ ∨
      (0xC2 ≤ b ∧ b < 0xE0) ∧ l = ⟨1, 0x80, 0xBF, b - 0xC0⟩ ∨
      (0xE0 ≤ b ∧ b < 0xF0) ∧
        l = ⟨2, if b = 0xE0 then 0xA0 else 0x80, if b = 0xED then 0x9F else 0xBF, b - 0xE0⟩ ∨
      (0xF0 ≤ b ∧ b < 0xF5) ∧
        l = ⟨3, if b = 0xF0 then 0x90 else 0x80, if b = 0xF4 then 0x8F else 0xBF, b - 0xF0⟩ := by
  unfold lead? at found
  by_cases one : b < 0x80
  · rw [if_pos one] at found
    exact Or.inl ⟨one, (Option.some.inj found).symm⟩
  rw [if_neg one] at found
  by_cases low : b < 0xC2
  · rw [if_pos low] at found
    cases found
  rw [if_neg low] at found
  by_cases two : b < 0xE0
  · rw [if_pos two] at found
    exact Or.inr (Or.inl ⟨⟨Nat.not_lt.mp low, two⟩, (Option.some.inj found).symm⟩)
  rw [if_neg two] at found
  by_cases three : b < 0xF0
  · rw [if_pos three] at found
    exact Or.inr (Or.inr (Or.inl ⟨⟨Nat.not_lt.mp two, three⟩, (Option.some.inj found).symm⟩))
  rw [if_neg three] at found
  by_cases four : b < 0xF5
  · rw [if_pos four] at found
    exact Or.inr (Or.inr (Or.inr ⟨⟨Nat.not_lt.mp three, four⟩, (Option.some.inj found).symm⟩))
  · rw [if_neg four] at found
    cases found

theorem piece_of_lead {b : Nat} {l : Lead} (found : lead? b = some l) (rest : Bytes) :
    piece b rest = tail l.owed l.low l.high l.bits 0 rest := by
  unfold piece
  rcases lead_cases found with ⟨one, rfl⟩ | ⟨⟨low, high⟩, rfl⟩ | ⟨⟨low, high⟩, rfl⟩ | ⟨⟨low, high⟩, rfl⟩
  · rw [if_pos one]
    rfl
  · rw [if_neg (by omega), if_neg (by omega), if_pos high]
  · rw [if_neg (by omega), if_neg (by omega), if_neg (by omega), if_pos high]
  · rw [if_neg (by omega), if_neg (by omega), if_neg (by omega), if_neg (by omega), if_pos high]

theorem lead_none {b : Nat} (none : lead? b = none) : 0x80 ≤ b ∧ b < 0xC2 ∨ 0xF5 ≤ b := by
  grind [lead?]

theorem piece_of_none {b : Nat} (none : lead? b = none) (rest : Bytes) : piece b rest = .broken 0 := by
  unfold piece
  rcases lead_none none with ⟨low, high⟩ | past
  · rw [if_neg (by omega), if_pos high]
  · rw [if_neg (by omega), if_neg (by omega), if_neg (by omega), if_neg (by omega), if_neg (by omega)]

/-- The last bytes of a character, `owed` of them, each with six bits of its code. -/
def trail : (owed code : Nat) → Bytes
  | 0, _ => []
  | owed + 1, code => UInt8.ofNat (0x80 + code / 64 ^ owed % 64) :: trail owed code

theorem length_trail (owed code : Nat) : (trail owed code).length = owed := by
  induction owed with
  | zero => rfl
  | succ owed ih => rw [trail, List.length_cons, ih]

theorem encodeChar_eq (c : Char) : encodeChar c =
    if c.toNat < 0x80 then UInt8.ofNat c.toNat :: trail 0 c.toNat
    else if c.toNat < 0x800 then UInt8.ofNat (0xC0 + c.toNat / 64) :: trail 1 c.toNat
    else if c.toNat < 0x10000 then UInt8.ofNat (0xE0 + c.toNat / 64 ^ 2) :: trail 2 c.toNat
    else UInt8.ofNat (0xF0 + c.toNat / 64 ^ 3) :: trail 3 c.toNat := rfl

/-- A code with these highest bits, the next six of which lie within bounds if there are more. -/
structure Admits (owed low high bits code : Nat) : Prop where
  bits : code / 64 ^ owed = bits
  within : ∀ k, owed = k + 1 → low ≤ 0x80 + code / 64 ^ k % 64 ∧ 0x80 + code / 64 ^ k % 64 ≤ high

theorem Admits.done : Admits 0 low high code code := ⟨by rw [Nat.pow_zero, Nat.div_one], nofun⟩

/-- Behind the next six bits of a code all that follow are admitted. -/
theorem Admits.next (admits : Admits (owed + 1) low high bits code) :
    Admits owed 0x80 0xBF (bits * 64 + code / 64 ^ owed % 64) code where
  bits := by
    have upper := admits.bits
    rw [Nat.pow_succ, ← Nat.div_div_eq_div_mul] at upper
    omega
  within := fun k _ => ⟨Nat.le_add_right .., by omega⟩

theorem Admits.before (within : low ≤ 0x80 + n) (within' : 0x80 + n ≤ high) (bound : n < 64)
    (admits : Admits owed 0x80 0xBF (bits * 64 + n) code) :
    code / 64 ^ owed % 64 = n ∧ Admits (owed + 1) low high bits code := by
  have lower : code / 64 ^ owed % 64 = n := by
    rw [admits.bits]
    omega
  refine ⟨lower, ?_, fun k same => ?_⟩
  · rw [Nat.pow_succ, ← Nat.div_div_eq_div_mul, admits.bits]
    omega
  · cases same
    rw [lower]
    exact ⟨within, within'⟩

/-- What is owed is read as the bits of the code. -/
theorem tail_trail (admits : Admits owed low high bits code) (size : Nat) (rest : Bytes) :
    tail owed low high bits size (trail owed code ++ rest) = .char (Char.ofNat code) (size + owed) := by
  induction owed generalizing low high bits size with
  | zero =>
    have same := admits.bits
    rw [Nat.pow_zero, Nat.div_one] at same
    rw [same]
    rfl
  | succ owed ih =>
    obtain ⟨within, within'⟩ := admits.within owed rfl
    have byte : (UInt8.ofNat (0x80 + code / 64 ^ owed % 64)).toNat = 0x80 + code / 64 ^ owed % 64 :=
      UInt8.toNat_ofNat_of_lt' (show _ < 256 by omega)
    rw [trail, List.cons_append, tail, byte, if_pos ⟨within, within'⟩, Nat.add_sub_cancel_left, ih admits.next,
      Nat.add_right_comm, Nat.add_assoc]

/-- What is read as a character is the bits of a code, and as many bytes as were owed. -/
theorem tail_char (low_le : 0x80 ≤ low) (high_le : high ≤ 0xBF)
    (found : tail owed low high bits size rest = .char c n) :
    ∃ code, Admits owed low high bits code ∧ c = Char.ofNat code ∧ n = size + owed ∧ trail owed code <+: rest := by
  induction owed generalizing low high bits size rest with
  | zero =>
    cases found
    exact ⟨bits, .done, rfl, rfl, List.nil_prefix⟩
  | succ owed ih =>
    cases rest with
    | nil => cases found
    | cons b rest =>
      rw [tail] at found
      by_cases within : low ≤ b.toNat ∧ b.toNat ≤ high
      · rw [if_pos within] at found
        obtain ⟨code, admits, char, length, behind⟩ := ih (Nat.le_refl _) (Nat.le_refl _) found
        have split : 0x80 + (b.toNat - 0x80) = b.toNat := Nat.add_sub_cancel' (Nat.le_trans low_le within.1)
        obtain ⟨lower, admitted⟩ := admits.before (split ▸ within.1) (split ▸ within.2) (by omega)
        refine ⟨code, admitted, char, by omega, ?_⟩
        rw [trail, lower, split, UInt8.ofNat_toNat]
        exact List.cons_prefix_cons.mpr ⟨rfl, behind⟩
      · rw [if_neg within] at found
        cases found

theorem lead_bounds {b : Nat} {l : Lead} (found : lead? b = some l) :
    0x80 ≤ l.low ∧ l.low ≤ l.high ∧ l.high ≤ 0xBF := by
  rcases lead_cases found with ⟨_, rfl⟩ | ⟨_, rfl⟩ | ⟨_, rfl⟩ | ⟨_, rfl⟩
  · dsimp only
    decide
  · dsimp only
    decide
  · dsimp only
    split <;> split <;> omega
  · dsimp only
    split <;> split <;> omega

theorem toNat_ofNat {code : Nat} (valid : code.isValidChar) : (Char.ofNat code).toNat = code := by
  rw [Char.ofNat, dif_pos valid]
  rfl

/-- The bounds on the second byte keep codes from being too small for their length, surrogates, or past the last. -/
theorem char_of_lead {l : Lead} (found : lead? b.toNat = some l) (admits : Admits l.owed l.low l.high l.bits code) :
    encodeChar (Char.ofNat code) = b :: trail l.owed code := by
  have byte (n : Nat) (same : n = b.toNat) : UInt8.ofNat n = b := by rw [same, UInt8.ofNat_toNat]
  obtain ⟨upper, within⟩ := admits
  rcases lead_cases found with ⟨one, rfl⟩ | ⟨⟨low, high⟩, rfl⟩ | ⟨⟨low, high⟩, rfl⟩ | ⟨⟨low, high⟩, rfl⟩
  · dsimp only at upper
    have valid : (Char.ofNat code).toNat = code := toNat_ofNat (Or.inl (by omega))
    rw [encodeChar_eq, valid, if_pos (by omega), byte _ (by omega)]
  · dsimp only at upper
    have valid : (Char.ofNat code).toNat = code := toNat_ofNat (Or.inl (by omega))
    rw [encodeChar_eq, valid, if_neg (by omega), if_pos (by omega), byte _ (by omega)]
  · have second := within 1 rfl
    dsimp only at upper second
    have valid : (Char.ofNat code).toNat = code := by
      refine toNat_ofNat ?_
      unfold Nat.isValidChar
      split at second <;> split at second <;> omega
    have long : 0x800 ≤ code := by
      split at second <;> split at second <;> omega
    rw [encodeChar_eq, valid, if_neg (by omega), if_neg (by omega), if_pos (by omega), byte _ (by omega)]
  · have second := within 2 rfl
    dsimp only at upper second
    have long : 0x10000 ≤ code ∧ code < 0x110000 := by
      split at second <;> split at second <;> omega
    have valid : (Char.ofNat code).toNat = code := toNat_ofNat (Or.inr (by omega))
    rw [encodeChar_eq, valid, if_neg (by omega), if_neg (by omega), if_neg (by omega), byte _ (by omega)]

theorem lead_of_char (c : Char) : ∃ b l, lead? (UInt8.toNat b) = some l ∧
    Admits l.owed l.low l.high l.bits c.toNat ∧ encodeChar c = b :: trail l.owed c.toNat := by
  have bound := toNat_lt c
  have valid : c.toNat.isValidChar := c.valid
  unfold Nat.isValidChar at valid
  have byte (n : Nat) (small : n < 256) : (UInt8.ofNat n).toNat = n := UInt8.toNat_ofNat_of_lt' small
  rw [encodeChar_eq]
  by_cases one : c.toNat < 0x80
  · rw [if_pos one]
    refine ⟨_, ⟨0, 0x80, 0xBF, c.toNat⟩, ?_, .done, rfl⟩
    rw [byte _ (by omega), lead?, if_pos one]
  rw [if_neg one]
  by_cases two : c.toNat < 0x800
  · rw [if_pos two]
    refine ⟨_, ⟨1, 0x80, 0xBF, c.toNat / 64⟩, ?_, ⟨by rw [Nat.pow_one], fun k _ => ?_⟩, rfl⟩
    · rw [byte _ (by omega), lead?, if_neg (by omega), if_neg (by omega), if_pos (by omega), Nat.add_sub_cancel_left]
    · dsimp only
      omega
  rw [if_neg two]
  by_cases three : c.toNat < 0x10000
  · rw [if_pos three]
    refine ⟨_, ⟨2, if 0xE0 + c.toNat / 64 ^ 2 = 0xE0 then 0xA0 else 0x80,
      if 0xE0 + c.toNat / 64 ^ 2 = 0xED then 0x9F else 0xBF, c.toNat / 64 ^ 2⟩, ?_, ⟨rfl, fun k same => ?_⟩, rfl⟩
    · rw [byte _ (by omega), lead?, if_neg (by omega), if_neg (by omega), if_neg (by omega), if_pos (by omega),
        Nat.add_sub_cancel_left]
    · -- a second byte below the bound would be of a shorter form, one above it of a surrogate
      cases same
      dsimp only
      split <;> split <;> omega
  · rw [if_neg three]
    refine ⟨_, ⟨3, if 0xF0 + c.toNat / 64 ^ 3 = 0xF0 then 0x90 else 0x80,
      if 0xF0 + c.toNat / 64 ^ 3 = 0xF4 then 0x8F else 0xBF, c.toNat / 64 ^ 3⟩, ?_, ⟨rfl, fun k same => ?_⟩, rfl⟩
    · rw [byte _ (by omega), lead?, if_neg (by omega), if_neg (by omega), if_neg (by omega), if_neg (by omega),
        if_pos (by omega), Nat.add_sub_cancel_left]
    · cases same
      dsimp only
      split <;> split <;> omega

/-- A character is read from its bytes, whatever is behind them. -/
theorem piece_of_prefix (front : encodeChar c <+: b :: rest) :
    ∃ n, piece b.toNat rest = .char c n ∧ (encodeChar c).length = n + 1 := by
  obtain ⟨first, l, found, admits, encoded⟩ := lead_of_char c
  rw [encoded] at front ⊢
  obtain ⟨rfl, more, rfl⟩ := List.cons_prefix_cons.mp front
  refine ⟨l.owed, ?_, by rw [List.length_cons, length_trail]⟩
  rw [piece_of_lead found, tail_trail admits, Char.ofNat_toNat, Nat.zero_add]

/-- What is read as a character are its bytes. -/
theorem prefix_of_piece (read : piece b.toNat rest = .char c n) :
    encodeChar c <+: b :: rest ∧ (encodeChar c).length = n + 1 := by
  cases found : lead? b.toNat with
  | none =>
    rw [piece_of_none found] at read
    cases read
  | some l =>
    obtain ⟨low, _, high⟩ := lead_bounds found
    rw [piece_of_lead found] at read
    obtain ⟨code, admits, rfl, rfl, behind⟩ := tail_char low high read
    rw [char_of_lead found admits]
    refine ⟨List.cons_prefix_cons.mpr ⟨rfl, behind⟩, ?_⟩
    rw [List.length_cons, length_trail, Nat.zero_add]

theorem append_of_piece (read : piece b.toNat rest = .char c n) :
    encodeChar c ++ (b :: rest).drop (n + 1) = b :: rest := by
  obtain ⟨⟨more, whole⟩, length⟩ := prefix_of_piece read
  rw [← whole, ← length, List.drop_left]

/-- Whatever the highest bits are, there is a code with them. -/
theorem exists_admits (low_le : 0x80 ≤ low) (order : low ≤ high) (high_le : high ≤ 0xBF) (owed bits : Nat) :
    ∃ code, Admits owed low high bits code := by
  induction owed generalizing low high bits with
  | zero => exact ⟨bits, .done⟩
  | succ owed ih =>
    obtain ⟨code, admits⟩ := ih (Nat.le_refl 0x80) (by decide) (Nat.le_refl 0xBF) (bits * 64 + (low - 0x80))
    exact ⟨code, (admits.before (by omega) (by omega) (by omega)).2⟩

/-- As many bytes as were taken could have been followed by those that complete a character. -/
theorem tail_begun (low_le : 0x80 ≤ low) (order : low ≤ high) (high_le : high ≤ 0xBF) (owed bits size : Nat)
    (rest : Bytes) : ∃ k code, (tail owed low high bits size rest).size = size + k + 1 ∧
      Admits owed low high bits code ∧ rest.take k <+: trail owed code := by
  induction owed generalizing low high bits size rest with
  | zero => exact ⟨0, bits, rfl, .done, List.nil_prefix⟩
  | succ owed ih =>
    -- where the bytes stop short, any bits within the bounds could have come
    obtain ⟨code, admits⟩ := exists_admits low_le order high_le (owed + 1) bits
    cases rest with
    | nil => exact ⟨0, code, rfl, admits, List.nil_prefix⟩
    | cons b rest =>
      rw [tail]
      by_cases within : low ≤ b.toNat ∧ b.toNat ≤ high
      · rw [if_pos within]
        obtain ⟨k, code, taken, admits, begun⟩ := ih (Nat.le_refl 0x80) (by decide) (Nat.le_refl 0xBF)
          (bits * 64 + (b.toNat - 0x80)) (size + 1) rest
        have split : 0x80 + (b.toNat - 0x80) = b.toNat := Nat.add_sub_cancel' (Nat.le_trans low_le within.1)
        obtain ⟨lower, admitted⟩ := admits.before (split ▸ within.1) (split ▸ within.2) (by omega)
        refine ⟨k + 1, code, by omega, admitted, ?_⟩
        rw [trail, lower, split, UInt8.ofNat_toNat, List.take_succ_cons]
        exact List.cons_prefix_cons.mpr ⟨rfl, begun⟩
      · rw [if_neg within]
        exact ⟨0, code, rfl, admits, List.nil_prefix⟩

/-- The byte that keeps a character from being completed does so whatever follows it. -/
theorem tail_broken (broken : tail owed low high bits size rest = .broken n) :
    ∃ k, n = size + k ∧ ∀ more, tail owed low high bits size (rest.take (k + 1) ++ more) = .broken n := by
  induction owed generalizing low high bits size rest with
  | zero => cases broken
  | succ owed ih =>
    cases rest with
    | nil => cases broken
    | cons b rest =>
      rw [tail] at broken
      by_cases within : low ≤ b.toNat ∧ b.toNat ≤ high
      · rw [if_pos within] at broken
        obtain ⟨k, rfl, still⟩ := ih broken
        refine ⟨k + 1, by omega, fun more => ?_⟩
        rw [List.take_succ_cons, List.cons_append, tail, if_pos within, still]
      · rw [if_neg within] at broken
        cases broken
        refine ⟨0, rfl, fun more => ?_⟩
        rw [List.take_succ_cons, List.cons_append, tail, if_neg within]

theorem tail_cut (cut : tail owed low high bits size rest = .cut n) : n = size + rest.length := by
  induction owed generalizing low high bits size rest with
  | zero => cases cut
  | succ owed ih =>
    cases rest with
    | nil =>
      cases cut
      rfl
    | cons b rest =>
      rw [tail] at cut
      by_cases within : low ≤ b.toNat ∧ b.toNat ≤ high
      · rw [if_pos within] at cut
        have length := ih cut
        rw [List.length_cons]
        omega
      · rw [if_neg within] at cut
        cases cut

/-- Bytes with which those of a character begin. -/
def Begins (part : Bytes) : Prop := ∃ c, part <+: encodeChar c

/-- A longest part in front of the rest with which a character could have begun, but does not; or a single byte, if
none begins with it. -/
structure Illformed (part rest : Bytes) : Prop where
  nonempty : part ≠ []
  noChar : ∀ c, ¬ encodeChar c <+: part ++ rest
  begun : part.length = 1 ∨ Begins part
  longest : ∀ b more, rest = b :: more → ¬ Begins (part ++ [b])

theorem Begins.of_prefix {part more : Bytes} (begins : Begins more) (front : part <+: more) : Begins part := by
  obtain ⟨c, behind⟩ := begins
  exact ⟨c, front.trans behind⟩

theorem begins_lead {l : Lead} (found : lead? b.toNat = some l) (admits : Admits l.owed l.low l.high l.bits code)
    {part : Bytes} (begun : part <+: trail l.owed code) : Begins (b :: part) := by
  refine ⟨Char.ofNat code, ?_⟩
  rw [char_of_lead found admits]
  exact List.cons_prefix_cons.mpr ⟨rfl, begun⟩

/-- Bytes that a character could have begun with are read as one when it is completed. -/
theorem piece_of_begins {part : Bytes} (begins : Begins (b :: part)) :
    ∃ more c n, piece b.toNat (part ++ more) = .char c n := by
  obtain ⟨c, more, whole⟩ := begins
  have front : encodeChar c <+: b :: (part ++ more) := by
    rw [← whole]
    exact List.prefix_refl _
  obtain ⟨n, read, _⟩ := piece_of_prefix front
  exact ⟨more, c, n, read⟩

/-- The byte behind a piece that is no character goes on with none. -/
theorem not_begins_next {l : Lead} {k : Nat} (found : lead? b.toNat = some l)
    (noChar : ∀ c n, tail l.owed l.low l.high l.bits 0 rest ≠ .char c n)
    (taken : (tail l.owed l.low l.high l.bits 0 rest).size = k + 1) (inside : k < rest.length) :
    ¬ Begins (b :: rest.take (k + 1)) := by
  intro begins
  obtain ⟨more, c, n, read⟩ := piece_of_begins begins
  rw [piece_of_lead found] at read
  cases outcome : tail l.owed l.low l.high l.bits 0 rest with
  | char c n => exact noChar c n outcome
  | broken n =>
    obtain ⟨k', length, still⟩ := tail_broken outcome
    rw [outcome, Piece.size] at taken
    obtain rfl : k' = k := by omega
    -- whatever comes to complete the character, the byte that broke it stands before
    rw [still] at read
    cases read
  | cut n =>
    have all := tail_cut outcome
    rw [outcome, Piece.size] at taken
    omega

/-- A piece that is no character is a longest part that begins one, or a byte that begins none. -/
theorem illformed_of_piece (noChar : ∀ c n, piece b.toNat rest ≠ .char c n) :
    Illformed ((b :: rest).take (piece b.toNat rest).size) ((b :: rest).drop (piece b.toNat rest).size) := by
  have noFront (c : Char) : ¬ encodeChar c <+: b :: rest := by
    intro front
    obtain ⟨n, read, _⟩ := piece_of_prefix front
    exact noChar c n read
  cases found : lead? b.toNat with
  | none =>
    rw [piece_of_none found]
    refine ⟨nofun, fun c => ?_, Or.inl rfl, fun d more _ begins => ?_⟩
    · rw [List.take_append_drop]
      exact noFront c
    · obtain ⟨more, c, n, read⟩ := piece_of_begins begins
      rw [piece_of_none found] at read
      cases read
  | some l =>
    obtain ⟨low, order, high⟩ := lead_bounds found
    obtain ⟨k, code, taken, admits, begun⟩ := tail_begun low order high l.owed l.bits 0 rest
    rw [Nat.zero_add] at taken
    rw [piece_of_lead found] at noChar ⊢
    rw [taken, List.take_succ_cons, List.drop_succ_cons]
    refine ⟨nofun, fun c => ?_, Or.inr (begins_lead found admits begun), fun d more behind begins => ?_⟩
    · rw [List.cons_append, List.take_append_drop]
      exact noFront c
    · have inside : k < rest.length := by
        have length := congrArg List.length behind
        rw [List.length_drop, List.length_cons] at length
        omega
      have next : rest.take k ++ [d] = rest.take (k + 1) := by
        rw [List.take_add_one, ← List.head?_drop, behind]
        rfl
      rw [List.cons_append, next] at begins
      exact not_begins_next found noChar taken inside begins

/-- Only one part in front of some bytes is a longest one. -/
theorem Illformed.unique {part part' rest' : Bytes} (illformed : Illformed part rest)
    (illformed' : Illformed part' rest') (same : part ++ rest = part' ++ rest') : part = part' ∧ rest = rest' := by
  have shorter {part rest part' rest' : Bytes} (illformed : Illformed part rest) (illformed' : Illformed part' rest')
      (same : part ++ rest = part' ++ rest') : ¬ part.length < part'.length := by
    intro less
    have positive := List.length_pos_iff.mpr illformed.nonempty
    obtain ⟨more, rfl⟩ : part <+: part' :=
      List.prefix_of_prefix_length_le ⟨rest, same⟩ (List.prefix_append part' rest') (Nat.le_of_lt less)
    cases more with
    | nil =>
      rw [List.append_nil] at less
      exact Nat.lt_irrefl _ less
    | cons b more =>
      -- the shorter part goes on with a byte of the longer one, and so is not a longest
      rw [List.append_assoc, List.append_cancel_left_eq, List.cons_append] at same
      rcases illformed'.begun with one | begins
      · rw [List.length_append, List.length_cons] at one
        omega
      · refine illformed.longest b _ same (begins.of_prefix ⟨more, ?_⟩)
        rw [List.append_assoc, List.singleton_append]
  have equal : part.length = part'.length :=
    Nat.le_antisymm (Nat.not_lt.mp (shorter illformed' illformed same.symm))
      (Nat.not_lt.mp (shorter illformed illformed' same))
  exact List.append_inj same equal

/-- The text that bytes are taken for: a character where its bytes are, and the replacement character for each longest
part that is none. -/
inductive Lossy : Bytes → List Char → Prop
  | done : Lossy [] []
  | char {c : Char} {rest : Bytes} {text : List Char} : Lossy rest text → Lossy (encodeChar c ++ rest) (c :: text)
  | illformed {part rest : Bytes} {text : List Char} : Illformed part rest → Lossy rest text →
      Lossy (part ++ rest) ('\uFFFD' :: text)

theorem Lossy.broken {text : List Char} (noChar : ∀ c n, piece b.toNat rest ≠ .char c n)
    (more : Lossy ((b :: rest).drop (piece b.toNat rest).size) text) : Lossy (b :: rest) ('\uFFFD' :: text) := by
  have whole := Lossy.illformed (illformed_of_piece noChar) more
  rwa [List.take_append_drop] at whole

theorem lossy_decodeLossy (bytes : Bytes) : Lossy bytes (decodeLossy bytes) := by
  unfold decodeLossy
  fun_induction pieces bytes with
  | case1 => exact .done
  | case2 b rest ih =>
    rw [List.map_cons]
    cases read : piece b.toNat rest with
    | char c n =>
      rw [read] at ih
      have whole : Lossy (encodeChar c ++ (b :: rest).drop (n + 1)) _ := .char ih
      rwa [append_of_piece read] at whole
    | broken n =>
      have replaced := Lossy.broken (by rw [read]; exact nofun) ih
      rwa [read] at replaced
    | cut n =>
      have replaced := Lossy.broken (by rw [read]; exact nofun) ih
      rwa [read] at replaced

theorem pieces_char (c : Char) (rest : Bytes) : ∃ n, pieces (encodeChar c ++ rest) = .char c n :: pieces rest := by
  obtain ⟨b, l, _, _, encoded⟩ := lead_of_char c
  have front : encodeChar c <+: b :: (trail l.owed c.toNat ++ rest) := ⟨rest, by rw [encoded, List.cons_append]⟩
  obtain ⟨n, read, length⟩ := piece_of_prefix front
  have behind : (encodeChar c ++ rest).drop (Piece.char c n).size = rest := by
    rw [Piece.size, ← length, List.drop_left]
  refine ⟨n, ?_⟩
  rw [encoded, List.cons_append] at behind ⊢
  rw [pieces, read, behind]

/-- There is only one text that bytes are taken for. -/
theorem decodeLossy_of_lossy {text : List Char} (lossy : Lossy bytes text) : decodeLossy bytes = text := by
  induction lossy with
  | done => rw [decodeLossy, pieces, List.map_nil]
  | @char c rest text _ ih =>
    obtain ⟨n, first⟩ := pieces_char c rest
    rw [decodeLossy, first, List.map_cons, ← decodeLossy, ih, Piece.lossy]
  | @illformed part rest text illformed _ ih =>
    obtain _ | ⟨b, part⟩ := part
    · exact absurd rfl illformed.nonempty
    · have noChar (c : Char) (n : Nat) : piece b.toNat (part ++ rest) ≠ .char c n := by
        intro read
        exact illformed.noChar c (prefix_of_piece read).1
      have whole := List.take_append_drop (piece b.toNat (part ++ rest)).size (b :: (part ++ rest))
      obtain ⟨_, behind⟩ := (illformed_of_piece noChar).unique illformed whole
      have replaced : (piece b.toNat (part ++ rest)).lossy = '\uFFFD' := by
        cases read : piece b.toNat (part ++ rest) with
        | char c n => exact absurd read (noChar c n)
        | broken n => rfl
        | cut n => rfl
      rw [decodeLossy, List.cons_append, pieces, behind, List.map_cons, ← decodeLossy, ih, replaced]

theorem decodeLossy_eq_iff {text : List Char} : decodeLossy bytes = text ↔ Lossy bytes text :=
  ⟨fun same => same ▸ lossy_decodeLossy bytes, decodeLossy_of_lossy⟩

theorem lossy_encode (text : List Char) : Lossy (encode text) text := by
  induction text with
  | nil => exact .done
  | cons c text ih =>
    rw [encode, List.flatMap_cons]
    exact .char ih

theorem chars_encode (text : List Char) (valid : Nat) : chars valid (pieces (encode text)) = .ok text := by
  induction text generalizing valid with
  | nil => rw [encode, List.flatMap_nil, pieces, chars]
  | cons c text ih =>
    obtain ⟨n, first⟩ := pieces_char c (encode text)
    rw [encode, List.flatMap_cons, ← encode, first, chars, ih]
    rfl

theorem encode_of_chars {text : List Char} {valid : Nat} (found : chars valid (pieces bytes) = .ok text) :
    encode text = bytes := by
  fun_induction pieces bytes generalizing text valid with
  | case1 =>
    cases found
    rfl
  | case2 b rest ih =>
    cases read : piece b.toNat rest with
    | char c n =>
      rw [read] at ih found
      rw [chars] at found
      cases later : chars (valid + n + 1) (pieces ((b :: rest).drop (Piece.char c n).size)) with
      | error e =>
        rw [later] at found
        cases found
      | ok text' =>
        rw [later] at found
        cases found
        have behind : encode text' = (b :: rest).drop (n + 1) := ih later
        rw [encode, List.flatMap_cons, ← encode, behind, append_of_piece read]
    | broken n =>
      rw [read] at found
      cases found
    | cut n =>
      rw [read] at found
      cases found

/-- Bytes are decoded only to the text whose bytes they are. -/
theorem decode_eq_ok_iff {text : List Char} : decode bytes = .ok text ↔ encode text = bytes :=
  ⟨encode_of_chars, fun same => same ▸ chars_encode text 0⟩

/-- The bytes of a character are those that strings are made of. -/
theorem encodeChar_eq_utf8EncodeChar (c : Char) : encodeChar c = String.utf8EncodeChar c := by
  have bound := toNat_lt c
  have code : c.val.toNat = c.toNat := rfl
  unfold encodeChar String.utf8EncodeChar
  simp only [code, Nat.pow_zero, Nat.pow_one, Nat.div_one]
  by_cases one : c.toNat < 0x80
  · rw [if_pos one, if_pos (Nat.lt_succ_iff.mp one)]
    rfl
  rw [if_neg one, if_neg (mt Nat.lt_succ_iff.mpr one)]
  by_cases two : c.toNat < 0x800
  · have lead : c.toNat / 64 % 32 = c.toNat / 64 := Nat.mod_eq_of_lt (by omega)
    rw [if_pos two, if_pos (Nat.lt_succ_iff.mp two), lead, Nat.add_comm (c.toNat / 64), Nat.add_comm (c.toNat % 64)]
    rfl
  rw [if_neg two, if_neg (mt Nat.lt_succ_iff.mpr two)]
  by_cases three : c.toNat < 0x10000
  · have lead : c.toNat / 4096 % 16 = c.toNat / 4096 := Nat.mod_eq_of_lt (by omega)
    rw [if_pos three, if_pos (Nat.lt_succ_iff.mp three), lead, Nat.add_comm (c.toNat / 4096),
      Nat.add_comm (c.toNat / 64 % 64), Nat.add_comm (c.toNat % 64)]
    rfl
  · have lead : c.toNat / 262144 % 8 = c.toNat / 262144 := Nat.mod_eq_of_lt (by omega)
    rw [if_neg three, if_neg (mt Nat.lt_succ_iff.mpr three), lead, Nat.add_comm (c.toNat / 262144),
      Nat.add_comm (c.toNat / 4096 % 64), Nat.add_comm (c.toNat / 64 % 64), Nat.add_comm (c.toNat % 64)]
    rfl

end OSC.Utf8
