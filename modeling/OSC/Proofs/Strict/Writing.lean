import OSC.Proofs.Packets
import OSC.Proofs.Strict.Reading
import OSC.Proofs.Texts

namespace OSC

/-- The bytes in an argument of any length. -/
def Argument.content? : Argument → Option Bytes
  | string bytes | blob bytes => some bytes
  | _ => none

namespace Writer

/-- What can be done to a writer. The arguments of a message may have anything in slots that are not recorded. -/
inductive Operation
  | argument (a : Argument)
  | floats (xs : List Single)
  | text (text : String)
  | handle (bytes : Bytes)
  | tags (tags : List Tag)
  | start (address : String) (packed : Bytes)
  | message (m : Message) (values : Strict.Values) (keep : values.Keep m.arguments)
  | bundle (time : TimeTag)
  | beginElement
  | endElement (mark : Nat)
  | reset
  | take

inductive Reply
  | done
  | mark (place : Nat)
  | written (outcome : Except Error Unit)
  | packet (bytes : Bytes)

/-- What an operation does to a writer. A size that there is no room for cannot be filled in. -/
def perform? (w : Writer) : Operation → Option (Writer × Reply)
  | .argument a => some (w.argument a, .done)
  | .floats xs => some (w.floats xs, .done)
  | .text text => some (w.text text, .done)
  | .handle bytes => some (w.handle bytes, .done)
  | .tags tags => some (w.tags tags, .done)
  | .start address packed => some (w.start address packed, .done)
  | .message m _ _ => some ((w.message m).1, .written (w.message m).2)
  | .bundle time => some (w.bundle time, .done)
  | .beginElement => some (w.beginElement.1, .mark w.beginElement.2)
  | .endElement mark => (w.endElement? mark).map fun w => (w, .done)
  | .reset => some (w.reset, .done)
  | .take => some (w.take.1, .packet w.take.2)

end Writer

namespace Strict

open Writer (Operation Reply)

/-- Text is padded by the length that is told from it, not by that of what was put out for it. -/
def writeString (out : Bytes) (e : Encoding) (text : String) : Strict Bytes := do
  let zeros ← textPadding (e.encodedLength text)
  return out ++ (e.encode text ++ zeros)

def fillSize (bytes : Bytes) (mark : Nat) : Strict Bytes := do
  let behind ← sub bytes.length mark
  let size ← sub behind 4
  let stop ← add mark 4
  let _ ← slice bytes mark stop
  return bytes.take mark ++ Bytes.ofNat 4 size ++ bytes.drop stop

def perform (w : Writer) : Operation → Strict (Writer × Reply)
  | .argument a => do
    let bytes ← write w.bytes a
    return ({ w with bytes }, .done)
  | .floats xs => return (w.floats xs, .done)
  | .text text => do
    let bytes ← writeString w.bytes w.encoding text
    return ({ w with bytes }, .done)
  | .handle text => do
    let bytes ← writeText w.bytes text
    return ({ w with bytes }, .done)
  | .tags tags => do
    let bytes ← writeTags w.bytes tags
    return ({ w with bytes }, .done)
  | .start address packed => do
    let bytes ← writeString [] w.encoding address
    return ({ w with bytes := bytes ++ packed }, .done)
  | .message m values _ => do
    let (bytes, outcome) ← values.writeMessage m.address
    return ({ w with bytes }, .written outcome)
  | .bundle time => return (w.bundle time, .done)
  | .beginElement => return (w.beginElement.1, .mark w.bytes.length)
  | .endElement mark => do
    let bytes ← fillSize w.bytes mark
    return ({ w with bytes }, .done)
  | .reset => return (w.reset, .done)
  | .take => return (w.reset, .packet w.bytes)

end Strict

namespace Writer

/-- What becomes of the bytes that a writer holds. -/
inductive Effect
  | appends
  | empties
  | fills (mark : Nat)

def Operation.effect : Operation → Effect
  | .argument _ | .floats _ | .text _ | .handle _ | .tags _ | .beginElement => .appends
  | .start _ _ | .message _ _ _ | .bundle _ | .reset | .take => .empties
  | .endElement mark => .fills mark

/-- Bytes before and after. A size that is filled in is that of all the bytes behind it. -/
def Effect.Holds (before after : Bytes) : Effect → Prop
  | appends => before <+: after
  | empties => True
  | fills mark => after.length = before.length ∧ after.take mark = before.take mark ∧
      after.drop (mark + 4) = before.drop (mark + 4) ∧ after.word? mark 4 = some (before.length - (mark + 4))

/-- A mark is one that was given, packed tags are four bytes, and nothing is longer than there can be. -/
def Operation.Allowed (marks : List Nat) : Operation → Prop
  | .argument a => ∀ content ∈ a.content?, content.length < Bytes.limit
  | .handle bytes => bytes.length < Bytes.limit
  | .text content => content.utf8ByteSize < Bytes.limit
  | .tags sent => sent.length < Bytes.limit
  | .start address packed => address.utf8ByteSize < Bytes.limit ∧ packed.length = 4
  | .message m _ _ => m.address.length < Bytes.limit ∧ m.arguments.bytes.length < Bytes.limit
  | .endElement mark => mark ∈ marks
  | .floats _ | .bundle _ | .beginElement | .reset | .take => True

instance (marks : List Nat) (operation : Operation) : Decidable (operation.Allowed marks) :=
  match operation with
  | .argument a => inferInstanceAs (Decidable (∀ content ∈ a.content?, content.length < Bytes.limit))
  | .handle bytes => inferInstanceAs (Decidable (bytes.length < Bytes.limit))
  | .text content => inferInstanceAs (Decidable (content.utf8ByteSize < Bytes.limit))
  | .tags sent => inferInstanceAs (Decidable (sent.length < Bytes.limit))
  | .start address packed =>
    inferInstanceAs (Decidable (address.utf8ByteSize < Bytes.limit ∧ packed.length = 4))
  | .message m _ _ =>
    inferInstanceAs (Decidable (m.address.length < Bytes.limit ∧ m.arguments.bytes.length < Bytes.limit))
  | .endElement mark => inferInstanceAs (Decidable (mark ∈ marks))
  | .floats _ | .bundle _ | .beginElement | .reset | .take => inferInstanceAs (Decidable True)

/-- A writer, and the marks that it gave since it was last emptied. -/
structure Session where
  writer : Writer
  marks : List Nat
  deriving DecidableEq

def Reply.mark? : Reply → Option Nat
  | mark place => some place
  | done | written _ | packet _ => none

namespace Session

def new (e : Encoding) : Session := ⟨.new e, []⟩

def after (s : Session) (operation : Operation) (w : Writer) (reply : Reply) : Session :=
  match operation.effect with
  | .appends | .fills _ => ⟨w, reply.mark?.toList ++ s.marks⟩
  | .empties => ⟨w, []⟩

def perform? (s : Session) (operation : Operation) : Option Session :=
  (s.writer.perform? operation).map fun (w, reply) => s.after operation w reply

/-- Every operation is allowed when its turn comes, and less than 2 GiB are held after it. -/
def Admits (s : Session) : List Operation → Prop
  | [] => True
  | operation :: rest => operation.Allowed s.marks ∧
      ∀ next ∈ s.perform? operation, next.writer.bytes.length < 2 ^ 31 ∧ next.Admits rest

instance decideAdmits (s : Session) : (operations : List Operation) → Decidable (s.Admits operations)
  | [] => inferInstanceAs (Decidable True)
  | operation :: rest =>
    have := fun next : Session => decideAdmits next rest
    inferInstanceAs (Decidable (operation.Allowed s.marks ∧
      ∀ next ∈ s.perform? operation, next.writer.bytes.length < 2 ^ 31 ∧ next.Admits rest))

def run (s : Session) : List Operation → Strict Session
  | [] => return s
  | operation :: rest => do
    let (w, reply) ← Strict.perform s.writer operation
    (s.after operation w reply).run rest

end Session

end Writer

namespace Strict

open Writer (Operation)

/-- A length and a few bytes more are still a word. -/
theorem word_of_limit {n : Nat} (short : n < Bytes.limit) : n + 8 < 2 ^ 64 := by
  unfold Bytes.limit at short
  omega

theorem writeString_eq (out : Bytes) (e : Encoding) {text : String} (short : text.utf8ByteSize < Bytes.limit) :
    writeString out e text = .ok (out ++ paddedText (e.encode text)) := by
  have word := word_of_limit short
  have shorter := e.encodedLength_le text
  rw [writeString, textPadding_eq (by omega), ← e.length_encode]
  rfl

theorem fillSize_eq (w : Writer) {mark : Nat} (room : mark + 4 ≤ w.bytes.length)
    (small : w.bytes.length < 2 ^ 31) :
    ∃ filled, fillSize w.bytes mark = .ok filled ∧ w.endElement? mark = some { w with bytes := filled } := by
  refine ⟨_, ?_, if_pos room⟩
  rw [fillSize, sub_eq (by omega), ok_bind, sub_eq (by omega), ok_bind, add_eq (by omega), ok_bind,
    slice_eq (by omega) room, ok_bind]
  rfl

theorem write_allowed (out : Bytes) {a : Argument} {marks : List Nat}
    (allowed : (Operation.argument a).Allowed marks) : write out a = .ok (out ++ a.encode) := by
  cases a with
  | string text =>
    have word := word_of_limit (allowed text rfl)
    exact writeText_eq out (by omega)
  | blob content =>
    have word := word_of_limit (allowed content rfl)
    exact writeBlob_eq out (by omega)
  | _ => rfl

/-- A writer keeps its encoding, and whole words of a message, be it all of it or not. -/
theorem message_kept (w : Writer) (m : Message) :
    ∃ values : List Argument, (w.message m).1 = { w with
      bytes := paddedText m.address ++ tagString m.arguments.table.tags ++ values.flatMap Argument.encode } := by
  rcases Writer.arguments_cases m.arguments.toList with ⟨values, all⟩ | ⟨values, e, rest, cut⟩
  · exact ⟨values, congrArg Prod.fst (Writer.message_values all w)⟩
  · exact ⟨values, congrArg Prod.fst (Writer.message_error cut w)⟩

/-- Every operation that is allowed does what it does without the checks. -/
theorem perform_eq {w : Writer} {marks : List Nat} (room : ∀ mark ∈ marks, mark + 4 ≤ w.bytes.length)
    (small : w.bytes.length < 2 ^ 31) {operation : Operation} (allowed : operation.Allowed marks) :
    ∃ now reply, perform w operation = .ok (now, reply) ∧ w.perform? operation = some (now, reply) := by
  cases operation with
  | argument a =>
    refine ⟨w.argument a, .done, ?_, rfl⟩
    rw [perform, write_allowed w.bytes allowed]
    rfl
  | floats xs => exact ⟨w.floats xs, .done, rfl, rfl⟩
  | text text =>
    refine ⟨w.text text, .done, ?_, rfl⟩
    rw [perform, writeString_eq w.bytes w.encoding allowed]
    rfl
  | handle bytes =>
    have word := word_of_limit allowed
    refine ⟨w.handle bytes, .done, ?_, rfl⟩
    rw [perform, writeText_eq w.bytes (by omega)]
    rfl
  | tags tags =>
    have word := word_of_limit allowed
    refine ⟨w.tags tags, .done, ?_, rfl⟩
    rw [perform, writeTags_eq w.bytes (by omega)]
    rfl
  | start address packed =>
    refine ⟨w.start address packed, .done, ?_, rfl⟩
    rw [perform, writeString_eq [] w.encoding allowed.1]
    rfl
  | message m values keep =>
    refine ⟨(w.message m).1, .written (w.message m).2, ?_, rfl⟩
    obtain ⟨sent, written⟩ := message_kept w m
    rw [perform, Values.writeMessage_eq keep allowed.2 allowed.1 w, ok_bind, written]
    rfl
  | bundle time => exact ⟨w.bundle time, .done, rfl, rfl⟩
  | beginElement => exact ⟨w.beginElement.1, .mark w.beginElement.2, rfl, rfl⟩
  | endElement mark =>
    obtain ⟨filled, checked, ended⟩ := fillSize_eq w (room mark allowed) small
    refine ⟨{ w with bytes := filled }, .done, ?_, ?_⟩
    · rw [perform, checked]
      rfl
    · rw [Writer.perform?, ended]
      rfl
  | reset => exact ⟨w.reset, .done, rfl, rfl⟩
  | take => exact ⟨w.reset, .packet w.bytes, rfl, rfl⟩

end Strict

namespace Writer

/-- Filling in a size leaves all else as it was. -/
theorem endElement_fills {w now : Writer} {mark : Nat} (small : w.bytes.length < 2 ^ 31)
    (ended : w.endElement? mark = some now) : (Effect.fills mark).Holds w.bytes now.bytes := by
  unfold endElement? at ended
  split at ended
  · rename_i room
    cases ended
    have front : (w.bytes.take mark).length = mark := List.length_take_of_le (by omega)
    have size : (Bytes.ofNat 4 (w.bytes.length - mark - 4)).length = 4 := Bytes.length_ofNat 4 _
    have filled : (w.bytes.take mark ++ Bytes.ofNat 4 (w.bytes.length - mark - 4)).length = mark + 4 := by
      rw [List.length_append, front, size]
    refine ⟨?_, ?_, List.drop_left' filled, ?_⟩
    · rw [List.length_append, filled, List.length_drop]
      omega
    · rw [List.append_assoc]
      exact List.take_left' front
    · have word := Bytes.word_behind (w.bytes.take mark) (Bytes.ofNat 4 (w.bytes.length - mark - 4))
        (w.bytes.drop (mark + 4))
      rw [front, size, Bytes.toNat_ofNat, Nat.mod_eq_of_lt (by omega), ← List.append_assoc, Nat.sub_sub] at word
      exact word
  · cases ended

/-- What an operation leaves: whole words, bytes as its effect has them, and room for a size at a mark it gives. -/
structure Keeps (w : Writer) (operation : Operation) (now : Writer) (reply : Reply) : Prop where
  aligned : now.bytes.length % 4 = 0
  effect : operation.effect.Holds w.bytes now.bytes
  mark : ∀ place, reply.mark? = some place → place + 4 ≤ now.bytes.length

theorem keeps_append {w : Writer} {operation : Operation} {piece : Bytes} (aligned : w.bytes.length % 4 = 0)
    (appends : operation.effect = .appends) (whole : piece.length % 4 = 0) :
    w.Keeps operation (w.append piece) .done where
  aligned := by
    rw [append, List.length_append]
    omega
  effect := by
    rw [appends]
    exact List.prefix_append ..
  mark := fun place given => by cases given

theorem keeps_empty {w now : Writer} {operation : Operation} {reply : Reply}
    (empties : operation.effect = .empties) (whole : now.bytes.length % 4 = 0) (unmarked : reply.mark? = none) :
    w.Keeps operation now reply where
  aligned := whole
  effect := by
    rw [empties]
    trivial
  mark := fun place given => by
    rw [unmarked] at given
    cases given

variable {w now : Writer} {marks : List Nat} {operation : Operation} {reply : Reply}

theorem length_beginElement (w : Writer) : w.beginElement.1.bytes.length = w.bytes.length + 4 := List.length_append

theorem keeps_beginElement (aligned : w.bytes.length % 4 = 0) :
    w.Keeps .beginElement w.beginElement.1 (.mark w.beginElement.2) where
  aligned := by
    have longer := w.length_beginElement
    omega
  effect := List.prefix_append ..
  mark := fun place given => by
    cases given
    exact Nat.le_of_eq w.length_beginElement.symm

/-- Every operation keeps whole words and does to the bytes what is said of it. -/
theorem keeps_of_perform (aligned : w.bytes.length % 4 = 0) (small : w.bytes.length < 2 ^ 31)
    (allowed : operation.Allowed marks) (performed : w.perform? operation = some (now, reply)) :
    w.Keeps operation now reply := by
  cases operation with
  | argument a =>
    cases performed
    exact keeps_append aligned rfl a.length_encode_mod
  | floats xs =>
    cases performed
    have whole := length_flatMap_encode_mod (xs.map .float32)
    rw [List.flatMap_map] at whole
    exact keeps_append aligned rfl whole
  | text text =>
    cases performed
    exact keeps_append aligned rfl (length_paddedText_mod _)
  | handle bytes =>
    cases performed
    exact keeps_append aligned rfl (length_paddedText_mod _)
  | tags tags =>
    cases performed
    exact keeps_append aligned rfl (length_tagString_mod _)
  | start address packed =>
    cases performed
    refine keeps_empty rfl ?_ rfl
    have text := length_paddedText_mod (w.encoding.encode address)
    have four : packed.length = 4 := allowed.2
    simp only [start, Writer.text, append, reset, List.nil_append, List.length_append]
    omega
  | message m values keep =>
    cases performed
    refine keeps_empty rfl ?_ rfl
    obtain ⟨sent, written⟩ := Strict.message_kept w m
    have address := length_paddedText_mod m.address
    have tags := length_tagString_mod m.arguments.table.tags
    have content := length_flatMap_encode_mod sent
    rw [written, List.length_append, List.length_append]
    omega
  | bundle time =>
    cases performed
    refine keeps_empty rfl ?_ rfl
    rw [bundle_eq, List.length_append, TimeTag.toBytes, Bytes.length_ofNat]
    rfl
  | beginElement =>
    cases performed
    exact keeps_beginElement aligned
  | endElement mark =>
    obtain ⟨filled, ended, same⟩ := Option.map_eq_some_iff.mp performed
    cases same
    have fills := endElement_fills small ended
    refine ⟨fills.1 ▸ aligned, fills, fun place given => ?_⟩
    cases given
  | reset =>
    cases performed
    exact keeps_empty rfl rfl rfl
  | take =>
    cases performed
    exact keeps_empty rfl rfl rfl

namespace Session

/-- Whole words are held, less than 2 GiB of them, and there is room for a size at every mark. -/
structure Sound (s : Session) : Prop where
  aligned : s.writer.bytes.length % 4 = 0
  held : s.writer.bytes.length < 2 ^ 31
  room : ∀ mark ∈ s.marks, mark + 4 ≤ s.writer.bytes.length

theorem sound_new (e : Encoding) : (new e).Sound := ⟨rfl, Nat.two_pow_pos 31, List.forall_mem_nil _⟩

variable {s : Session}

namespace Sound

/-- No byte at a mark is lost before the writer is emptied. -/
theorem after (sound : s.Sound) (keeps : s.writer.Keeps operation now reply) (held : now.bytes.length < 2 ^ 31) :
    (s.after operation now reply).Sound := by
  have given : ∀ mark ∈ reply.mark?.toList, mark + 4 ≤ now.bytes.length := fun mark member =>
    keeps.mark mark (Option.mem_toList.mp member)
  have kept (longer : s.writer.bytes.length ≤ now.bytes.length) :
      ∀ mark ∈ reply.mark?.toList ++ s.marks, mark + 4 ≤ now.bytes.length := by
    intro mark member
    rcases List.mem_append.mp member with new | old
    · exact given mark new
    · exact Nat.le_trans (sound.room mark old) longer
  have effect := keeps.effect
  -- Only a writer that is emptied gets shorter, and then the marks are gone.
  unfold Session.after
  cases kind : operation.effect with
  | appends =>
    rw [kind] at effect
    exact ⟨keeps.aligned, held, kept effect.length_le⟩
  | empties => exact ⟨keeps.aligned, held, List.forall_mem_nil _⟩
  | fills mark =>
    rw [kind] at effect
    exact ⟨keeps.aligned, held, kept (Nat.le_of_eq effect.1.symm)⟩

/-- An operation that is allowed breaches no bound, and keeps what it should. -/
theorem perform (sound : s.Sound) (allowed : operation.Allowed s.marks) :
    ∃ now reply, Strict.perform s.writer operation = .ok (now, reply) ∧
      s.writer.perform? operation = some (now, reply) ∧ s.writer.Keeps operation now reply := by
  obtain ⟨now, reply, checked, performed⟩ := Strict.perform_eq sound.room sound.held allowed
  exact ⟨now, reply, checked, performed, keeps_of_perform sound.aligned sound.held allowed performed⟩

theorem run (sound : s.Sound) {operations : List Operation} (admitted : s.Admits operations) :
    ∃ last, s.run operations = .ok last ∧ last.Sound := by
  induction operations generalizing s with
  | nil => exact ⟨s, rfl, sound⟩
  | cons operation rest ih =>
    obtain ⟨allowed, later⟩ := admitted
    obtain ⟨now, reply, checked, performed, keeps⟩ := sound.perform allowed
    have next : s.perform? operation = some (s.after operation now reply) := by
      rw [Session.perform?, performed]
      rfl
    obtain ⟨held, admitted⟩ := later _ next
    have writer : (s.after operation now reply).writer = now := by
      unfold Session.after
      cases operation.effect <;> rfl
    rw [writer] at held
    obtain ⟨last, finished, soundLast⟩ := ih (sound.after keeps held) admitted
    refine ⟨last, ?_, soundLast⟩
    simp only [Session.run, checked, Strict.ok_bind, finished]

end Sound

/-- After any run of operations with less than 2 GiB held, be messages written in part or not, no sum, difference
or slice was out of bounds on the way, and whole words are held. Nor is one in any operation that comes next: it
does what the writer does, keeps whole words, and appends to what is there, or empties the writer, or fills in
nothing but the size at a mark, which is that of all that stands behind it. -/
theorem run_aligned (e : Encoding) {operations : List Operation} (admitted : (new e).Admits operations) :
    ∃ s, (new e).run operations = .ok s ∧ s.writer.bytes.length % 4 = 0 ∧
      ∀ operation : Operation, operation.Allowed s.marks →
        ∃ now reply, Strict.perform s.writer operation = .ok (now, reply) ∧
          s.writer.perform? operation = some (now, reply) ∧ now.bytes.length % 4 = 0 ∧
          operation.effect.Holds s.writer.bytes now.bytes := by
  obtain ⟨s, finished, sound⟩ := (sound_new e).run admitted
  refine ⟨s, finished, sound.aligned, fun operation allowed => ?_⟩
  obtain ⟨now, reply, checked, performed, keeps⟩ := sound.perform allowed
  exact ⟨now, reply, checked, performed, keeps.aligned, keeps.effect⟩

/-- A message with a number that is cut short, behind one that is not. -/
def cutMessage : Message :=
  ⟨[47, 98], [0, 0, 0, 5, 0, 0], ⟨[.int32, .int32], 0 :: List.replicate 31 4, by decide, by decide⟩⟩

def cutSlots : Strict.Slots := ⟨List.replicate 32 .int32, 0 :: List.replicate 31 4, 2⟩

theorem cutSlots_keep : (Strict.Values.mk [0, 0, 0, 5, 0, 0] cutSlots).Keep cutMessage.arguments :=
  ⟨rfl, rfl, rfl, rfl, rfl⟩

/-- A message is written in part, and then a bundle with an element in an element. -/
def nesting : List Operation :=
  [.message cutMessage ⟨_, cutSlots⟩ cutSlots_keep, .text "aé", .bundle ⟨0, 1⟩, .beginElement, .beginElement,
    .text "/é", .tags [.blob], .argument (.blob [1, 2, 3, 4, 5]), .endElement 20]

/-- The element in the element has its size, and the one around it has not. -/
def nested : Session where
  writer := ⟨.utf8, Bundle.marker ++ [0, 0, 0, 0, 0, 0, 0, 1] ++ [0, 0, 0, 0] ++ [0, 0, 0, 20] ++
    [47, 195, 169, 0, 44, 98, 0, 0, 0, 0, 0, 5, 1, 2, 3, 4, 5, 0, 0, 0]⟩
  marks := [20, 16]

theorem run_aligned_nesting :
    (new .utf8).Admits nesting ∧ (new .utf8).run nesting = .ok nested ∧ nested.writer.bytes.length % 4 = 0 ∧
      Operation.Allowed nested.marks (.endElement 16) ∧
      ∃ now reply, Strict.perform nested.writer (.endElement 16) = .ok (now, reply) ∧
        nested.writer.perform? (.endElement 16) = some (now, reply) ∧ now.bytes.length % 4 = 0 ∧
        (Effect.fills 16).Holds nested.writer.bytes now.bytes ∧ now.bytes.word? 16 4 = some 24 := by
  have admitted : (new .utf8).Admits nesting := by decide +kernel
  have given : Operation.Allowed nested.marks (.endElement 16) := by decide
  have run : (new .utf8).run nesting = .ok nested := by decide +kernel
  obtain ⟨s, finished, aligned, next⟩ := run_aligned .utf8 admitted
  rw [run] at finished
  cases finished
  obtain ⟨now, reply, checked, performed, whole, fills⟩ := next (.endElement 16) given
  exact ⟨admitted, run, aligned, given, now, reply, checked, performed, whole, fills, fills.2.2.2⟩

end Session

end Writer

end OSC
