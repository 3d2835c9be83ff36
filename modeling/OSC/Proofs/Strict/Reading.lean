import OSC.Proofs.Renewals
import OSC.Proofs.Strict.Parsing

namespace OSC.Strict

variable {bytes : Bytes}

def numberAt (bytes : Bytes) (offset width : Nat) : Strict (Except Error Nat) :=
  match piece? bytes offset width with
  | none => .ok (.error (.truncated offset width))
  | some piece => do
    let digits ← taking piece width
    return .ok (Bytes.toNat digits)

def textAt (bytes : Bytes) (offset : Nat) : Strict (Except Error Bytes) :=
  match drop? bytes offset with
  | none => .ok (.error (.truncated offset 1))
  | some rest =>
    match rest.findIdx? (· == 0) with
    | some length => do
      let text ← taking rest length
      return .ok text
    | none => do
      let needed ← add rest.length 1
      return .error (.truncated offset needed)

def blobAt (bytes : Bytes) (offset : Nat) : Strict (Except Error Bytes) := do
  let size ← numberAt bytes offset 4
  match size with
  | .error e => return .error e
  | .ok size =>
    let start ← add offset 4
    match piece? bytes start size with
    | some content => return .ok content
    | none => return .error (.truncated start size)

def decodeAt (bytes : Bytes) (offset : Nat) : Tag → Strict (Except Error Argument)
  | .int32 => return (← numberAt bytes offset 4).map fun n => .int32 (Arguments.int32OfNat n)
  | .float32 => return (← numberAt bytes offset 4).map fun n => .float32 (.ofNat n)
  | .string | .symbol => return (← textAt bytes offset).map .string
  | .blob => return (← blobAt bytes offset).map .blob
  | .int64 => return (← numberAt bytes offset 8).map fun n => .int64 (Arguments.int64OfNat n)
  | .float64 => return (← numberAt bytes offset 8).map fun n => .float64 (.ofNat n)
  | .timeTag => return (← numberAt bytes offset 8).map fun n => .timeTag (.ofNat n)
  | .midi => return (← numberAt bytes offset 4).map fun n => .midi (.ofNat n)
  | .color => return (← numberAt bytes offset 4).map fun n => .color (.ofNat n)
  | .char => return (← numberAt bytes offset 4).map fun n => .char (Arguments.charOfCode n)
  | .bool value => return .ok (.bool value)
  | .nil => return .ok .nil
  | .infinitum => return .ok .infinitum
  | .arrayOpen => return .ok .arrayOpen
  | .arrayClose => return .ok .arrayClose

/-- The text of an argument, which takes arithmetic for a time tag only. -/
def text? : Argument → Strict (Option String)
  | .timeTag t => do
    let scaled ← mul t.fraction.toNat (10 ^ 9)
    let digits := toString (scaled / 2 ^ 32)
    let zeros := String.ofList (List.replicate (9 - digits.length) '0')
    return some (toString t.seconds.toNat ++ "." ++ zeros ++ digits)
  | other => return Conversion.text.convert? other

/-- The arguments of a message with their table in slots. -/
structure Values where
  bytes : Bytes
  slots : Slots

namespace Values

def tags (v : Values) : Strict (List Tag) := taking v.slots.tags v.slots.count

def tag (v : Values) (index : Nat) : Strict (Except Error Tag) := do
  let tags ← v.tags
  match tags[index]? with
  | some tag => return .ok tag
  | none => return .error (.indexOutOfRange index v.slots.count)

def get (v : Values) (index : Nat) : Strict (Except Error Argument) := do
  let tag ← v.tag index
  match tag with
  | .error e => return .error e
  | .ok tag =>
    let offset ← fetch v.slots.offsets index
    decodeAt v.bytes offset tag

variable {α : Type}

def readBy (v : Values) (expected : String) (convert? : Argument → Strict (Option α)) (index : Nat) :
    Strict (Except Error α) := do
  let argument ← v.get index
  match argument with
  | .error e => return .error e
  | .ok a =>
    let value ← convert? a
    match value with
    | some value => return .ok value
    | none => return .error (.typeMismatch index a.tag expected)

def read (v : Values) (c : Conversion α) (index : Nat) : Strict (Except Error α) :=
  v.readBy c.expected (fun a => .ok (c.convert? a)) index

def readText (v : Values) (index : Nat) : Strict (Except Error String) :=
  v.readBy Conversion.text.expected text? index

def isNilOrInfinitum (v : Values) (index : Nat) : Strict (Except Error Bool) := do
  let tag ← v.tag index
  return tag.map fun tag => tag = .nil ∨ tag = .infinitum

end Values

/-- Zeros behind a text of some length, cut from four that are at hand. -/
def textPadding (length : Nat) : Strict Bytes := do
  let padded ← paddedLength length
  let missing ← sub padded length
  taking (Bytes.zeros 4) missing

def writeText (out text : Bytes) : Strict Bytes := do
  let zeros ← textPadding text.length
  return out ++ (text ++ zeros)

def writeBlob (out content : Bytes) : Strict Bytes := do
  let padded ← align4 content.length
  let missing ← sub padded content.length
  let zeros ← taking (Bytes.zeros 4) missing
  return out ++ (Bytes.ofNat 4 content.length ++ content ++ zeros)

def writeTags (out : Bytes) (tags : List Tag) : Strict Bytes := do
  let length ← add tags.length 1
  let zeros ← textPadding length
  return out ++ (Tag.comma :: tags.map Tag.toByte ++ zeros)

def write (out : Bytes) : Argument → Strict Bytes
  | .string text => writeText out text
  | .blob content => writeBlob out content
  | other => return out ++ other.encode

/-- What is written of a message, and whether that is all of it. -/
def Values.writeFrom (v : Values) (out : Bytes) (index : Nat) : (left : Nat) → Strict (Bytes × Except Error Unit)
  | 0 => return (out, .ok ())
  | left + 1 => do
    let argument ← v.get index
    match argument with
    | .error e => return (out, .error e)
    | .ok a =>
      let out ← write out a
      v.writeFrom out (index + 1) left

def Values.writeMessage (v : Values) (address : Bytes) : Strict (Bytes × Except Error Unit) := do
  let out ← writeText [] address
  let tags ← v.tags
  let out ← writeTags out tags
  v.writeFrom out 0 v.slots.count

theorem numberAt_eq (small : bytes.length < Bytes.limit) (offset width : Nat) :
    numberAt bytes offset width = .ok (Arguments.word bytes offset width) := by
  rw [numberAt, piece_eq small, Arguments.word, Bytes.word?]
  cases found : bytes.slice? offset width with
  | none => rfl
  | some piece =>
    have length := Bytes.length_slice found
    have whole : piece.take width = piece := List.take_of_length_le (by omega)
    simp only [taking_eq (Nat.le_of_eq length.symm), whole]
    rfl

theorem textAt_eq (small : bytes.length < Bytes.limit) (offset : Nat) :
    textAt bytes offset = .ok (Arguments.textAt bytes offset) := by
  unfold Bytes.limit at small
  unfold textAt Arguments.textAt drop?
  by_cases inside : offset ≤ bytes.length
  · rw [if_pos inside, if_neg (by omega)]
    simp only [Bytes.nulAt?]
    cases nul : (bytes.drop offset).findIdx? (· == 0) with
    | some n =>
      have before : offset + n < bytes.length := Bytes.nulAt_lt nul
      have room : n ≤ (bytes.drop offset).length := by
        rw [List.length_drop]
        omega
      simp only [taking_eq room]
      rfl
    | none =>
      have room : (bytes.drop offset).length + 1 < 2 ^ 64 := by
        rw [List.length_drop]
        omega
      simp only [add_eq room, ok_bind, ← List.length_drop]
      rfl
  · rw [if_neg inside, if_pos (by omega)]

theorem blobAt_eq (small : bytes.length < Bytes.limit) (offset : Nat) :
    blobAt bytes offset = .ok (Arguments.blobAt bytes offset) := by
  rw [blobAt, numberAt_eq small, ok_bind, Arguments.blobAt]
  cases found : Arguments.word bytes offset 4 with
  | error e => rfl
  | ok size =>
    have inside := Arguments.word_within found
    have sum : offset + 4 < 2 ^ 64 := by unfold Bytes.limit at small; omega
    simp only [add_eq sum, ok_bind, piece_eq small]
    cases content : bytes.slice? (offset + 4) size with
    | none => simp only [bind, Except.bind, content]; rfl
    | some piece => simp only [bind, Except.bind, content]; rfl

theorem decodeAt_eq (small : bytes.length < Bytes.limit) (offset : Nat) (tag : Tag) :
    decodeAt bytes offset tag = .ok (Arguments.decodeAt bytes offset tag) := by
  cases tag with
  | string | symbol =>
    simp only [decodeAt, textAt_eq small, ok_bind]
    rfl
  | blob =>
    simp only [decodeAt, blobAt_eq small, ok_bind]
    rfl
  | bool _ | nil | infinitum | arrayOpen | arrayClose => rfl
  | _ =>
    simp only [decodeAt, numberAt_eq small, ok_bind]
    rfl

theorem text_eq (a : Argument) : text? a = .ok (Conversion.text.convert? a) := by
  cases a with
  | timeTag t =>
    have fraction : t.fraction.toNat < 2 ^ 32 := t.fraction.toNat_lt
    rw [text?, mul_eq (by omega)]
    rfl
  | _ => rfl

namespace Values

/-- The arguments `a` with their table in slots. -/
structure Keep (v : Values) (a : Arguments) : Prop where
  bytes : v.bytes = a.bytes
  slots : v.slots.Keep a.table

variable {v : Values} {a : Arguments}

theorem tags_eq (keep : v.Keep a) : v.tags = .ok a.table.tags := by
  have room : v.slots.count ≤ v.slots.tags.length := by
    rw [keep.slots.room, keep.slots.count]
    exact a.table.length_tags
  rw [tags, taking_eq room, keep.slots.tags]

theorem tag_eq (keep : v.Keep a) (index : Nat) : v.tag index = .ok (a.tag index) := by
  rw [tag, tags_eq keep, ok_bind, Arguments.tag, keep.slots.count]
  cases a.table.tags[index]? <;> rfl

theorem get_eq (keep : v.Keep a) (small : a.bytes.length < Bytes.limit) (index : Nat) :
    v.get index = .ok (a.get index) := by
  rw [get, tag_eq keep, ok_bind, Arguments.get]
  unfold Arguments.tag
  cases found : a.table.tags[index]? with
  | none => rfl
  | some tag =>
    have recorded := (List.getElem?_eq_some_iff.mp found).1
    have few := a.table.length_tags
    have inside : index < a.table.slots.length := by
      rw [a.table.length_slots]
      omega
    have offset := List.getElem?_eq_getElem inside
    simp only [keep.slots.offsets, fetch_eq offset, ok_bind, keep.bytes, decodeAt_eq small,
      List.getD_eq_getElem?_getD, offset]
    rfl

variable {α : Type}

theorem readBy_eq (keep : v.Keep a) (small : a.bytes.length < Bytes.limit) (c : Conversion α)
    {convert? : Argument → Strict (Option α)} (same : ∀ a, convert? a = .ok (c.convert? a)) (index : Nat) :
    v.readBy c.expected convert? index = .ok (a.read c index) := by
  rw [readBy, get_eq keep small, ok_bind, Arguments.read]
  cases a.get index with
  | error e => rfl
  | ok argument =>
    simp only [same, bind, Except.bind]
    cases c.convert? argument <;> rfl

theorem isNilOrInfinitum_eq (keep : v.Keep a) (index : Nat) :
    v.isNilOrInfinitum index = .ok (a.isNilOrInfinitum index) := by
  rw [isNilOrInfinitum, tag_eq keep, ok_bind]
  rfl

end Values

/-- Zeros up to four of them are at hand. -/
theorem zeros_eq {n : Nat} (few : n ≤ 4) : taking (Bytes.zeros 4) n = .ok (Bytes.zeros n) := by
  rw [taking_eq (by rwa [Bytes.zeros, List.length_replicate]), Bytes.zeros, List.take_replicate, Nat.min_eq_left few]
  rfl

theorem textPadding_eq {length : Nat} (small : length + 4 < 2 ^ 64) :
    textPadding length = .ok (Bytes.zeros (OSC.paddedLength length - length)) := by
  have longer := lt_paddedLength length
  have near := paddedLength_le length
  rw [textPadding, paddedLength_eq small, ok_bind, sub_eq (by omega), ok_bind, zeros_eq (by omega)]

theorem writeText_eq (out : Bytes) {text : Bytes} (small : text.length + 4 < 2 ^ 64) :
    writeText out text = .ok (out ++ paddedText text) := by
  rw [writeText, textPadding_eq small]
  rfl

theorem writeBlob_eq (out : Bytes) {content : Bytes} (small : content.length + 3 < 2 ^ 64) :
    writeBlob out content = .ok (out ++ paddedBlob content) := by
  have longer := le_align4 content.length
  have near := align4_lt content.length
  rw [writeBlob, align4_eq small, ok_bind, sub_eq (by omega), ok_bind, zeros_eq (by omega)]
  rfl

theorem writeTags_eq (out : Bytes) {tags : List Tag} (small : tags.length + 5 < 2 ^ 64) :
    writeTags out tags = .ok (out ++ tagString tags) := by
  have length : (Tag.comma :: tags.map Tag.toByte).length = tags.length + 1 := by
    rw [List.length_cons, List.length_map]
  rw [writeTags, add_eq (by omega), ok_bind, textPadding_eq (by omega), tagString, paddedText, length]
  rfl

theorem write_eq (out : Bytes) {a : Argument} (small : a.encode.length + 3 < 2 ^ 64) :
    write out a = .ok (out ++ a.encode) := by
  cases a with
  | string text =>
    have longer := lt_paddedLength text.length
    rw [Argument.encode, length_paddedText] at small
    exact writeText_eq out (by omega)
  | blob content =>
    have longer := le_align4 content.length
    rw [Argument.encode, length_paddedBlob] at small
    exact writeBlob_eq out (by omega)
  | _ => rfl

theorem length_of_get {a : Arguments} {index : Nat} {argument : Argument} (found : a.get index = .ok argument) :
    argument.encode.length ≤ a.bytes.length + 3 := by
  unfold Arguments.get at found
  cases tagged : a.tag index with
  | error e => rw [tagged] at found; cases found
  | ok tag =>
    rw [tagged] at found
    rcases (Argument.length_of_decodeAt found).2 with none | inside
    · omega
    · omega

namespace Values

variable {v : Values} {a : Arguments}

/-- The loop writes the arguments that are left as the writer does that has written those before them. -/
theorem writeFrom_eq (keep : v.Keep a) (small : a.bytes.length < Bytes.limit) (w : Writer) (index left : Nat) :
    v.writeFrom w.bytes index left =
      let written := w.arguments ((List.range' index left).map a.get)
      .ok (written.1.bytes, written.2) := by
  induction left generalizing w index with
  | zero => rfl
  | succ left ih =>
    rw [writeFrom, get_eq keep small, ok_bind, List.range'_succ, List.map_cons]
    cases found : a.get index with
    | error e => rfl
    | ok argument =>
      have fits := length_of_get found
      have short : argument.encode.length + 3 < 2 ^ 64 := by unfold Bytes.limit at small; omega
      simp only [write_eq w.bytes short, ok_bind]
      exact ih (w.argument argument) (index + 1)

theorem writeMessage_eq {m : Message} (keep : v.Keep m.arguments) (small : m.arguments.bytes.length < Bytes.limit)
    (short : m.address.length < Bytes.limit) (w : Writer) :
    v.writeMessage m.address = .ok ((w.message m).1.bytes, (w.message m).2) := by
  have address : writeText [] m.address = .ok (w.reset.handle m.address).bytes :=
    writeText_eq [] (by unfold Bytes.limit at short; omega)
  have few := m.arguments.table.length_tags
  rw [writeMessage, address, ok_bind, tags_eq keep, ok_bind, writeTags_eq _ (by omega), ok_bind,
    keep.slots.count, Writer.message, Arguments.toList, List.range_eq_range']
  exact writeFrom_eq keep small ((w.reset.handle m.address).tags m.arguments.table.tags) 0 m.arguments.count

end Values

end OSC.Strict
