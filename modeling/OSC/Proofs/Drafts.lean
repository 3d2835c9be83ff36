import OSC.Proofs.Values
import OSC.Writer

namespace OSC

/-- A value, and the tag that it is sent under. -/
structure Entry where
  tag : Tag
  value : Argument
  fits : value.Fits tag

/-- A message to be sent, with an address that can be found again. -/
structure Draft where
  address : Bytes
  entries : List Entry
  slash : address.head? = some Address.slash
  noZero : 0 ∉ address

namespace Writer

theorem append_append (w : Writer) (first second : Bytes) :
    (w.append first).append second = w.append (first ++ second) := by
  simp only [append, List.append_assoc]

theorem foldl_argument (w : Writer) (values : List Argument) :
    values.foldl argument w = w.append (values.flatMap Argument.encode) := by
  induction values generalizing w with
  | nil => simp only [List.foldl_nil, append, List.flatMap_nil, List.append_nil]
  | cons a rest ih => rw [List.foldl_cons, ih, argument, append_append, List.flatMap_cons]

end Writer

/-- Writes the address, the tags of all the entries, and then their values one by one. -/
def Writer.draft (w : Writer) (d : Draft) : Writer :=
  d.entries.foldl (fun w e => w.argument e.value) ((w.handle d.address).tags (d.entries.map Entry.tag))

namespace Draft

def tags (d : Draft) : List Tag := d.entries.map Entry.tag

/-- The padded address and the padded type tag string, behind which the values begin. -/
def head (d : Draft) : Bytes := paddedText d.address ++ tagString d.tags

def bytes (d : Draft) : Bytes := d.head ++ d.entries.flatMap fun e => e.value.encode

theorem writer_appended (w : Writer) (d : Draft) : w.draft d = w.append d.bytes := by
  have values := ((w.handle d.address).tags d.tags).foldl_argument (d.entries.map Entry.value)
  rw [List.foldl_map, List.flatMap_map] at values
  refine values.trans ?_
  rw [Writer.tags, Writer.handle, Writer.append_append, Writer.append_append, bytes, head, List.append_assoc]

theorem writer_draft (w : Writer) (d : Draft) : (w.reset.draft d).bytes = d.bytes := by
  rw [writer_appended]
  rfl

end Draft

theorem Tag.run_map_toByte (tags : List Tag) (rest : Bytes) :
    run (tags.map toByte ++ 0 :: rest) = tags := by
  induction tags with
  | nil => simp only [List.map_nil, List.nil_append, run, ofByte_zero]
  | cons tag tags ih => simp only [List.map_cons, List.cons_append, run, ofByte_toByte, ih]

theorem length_tagString (tags : List Tag) : (tagString tags).length = paddedLength (tags.length + 1) := by
  rw [tagString, length_paddedText, List.length_cons, List.length_map]

theorem length_tagString_mod (tags : List Tag) : (tagString tags).length % 4 = 0 := length_paddedText_mod _

theorem Tag.listAt_tagString (front rest : Bytes) (tags : List Tag) :
    listAt (front ++ (tagString tags ++ rest)) front.length = tags ∧
      stringLength (front ++ (tagString tags ++ rest)) front.length = tags.length + 1 := by
  obtain ⟨padding, padded⟩ := paddedText_terminated (comma :: tags.map toByte)
  have shape : tagString tags ++ rest = comma :: (tags.map toByte ++ 0 :: (padding ++ rest)) := by
    simp only [tagString, padded, List.append_assoc, List.cons_append]
  have first : (front ++ (tagString tags ++ rest))[front.length]? = some comma := by
    rw [List.getElem?_append_right (Nat.le_refl _), Nat.sub_self, shape, List.getElem?_cons_zero]
  have behind : (front ++ (tagString tags ++ rest)).drop (front.length + 1) =
      tags.map toByte ++ 0 :: (padding ++ rest) := by
    rw [List.drop_length_add_append, shape, List.drop_one, List.tail_cons]
  simp only [listAt, stringLength, first, behind, if_true, run_map_toByte, and_self]

theorem Address.length_paddedText {address : Bytes} (slashed : address.head? = some slash)
    (noZero : 0 ∉ address) (rest : Bytes) : length (paddedText address ++ rest) 0 = .ok address.length := by
  obtain ⟨name, rfl⟩ : ∃ name, address = slash :: name := by
    cases address with
    | nil => cases slashed
    | cons b name => exact ⟨name, by rw [Option.some.inj slashed]⟩
  obtain ⟨padding, padded⟩ := paddedText_terminated (slash :: name)
  have shape : paddedText (slash :: name) ++ rest = slash :: (name ++ 0 :: (padding ++ rest)) := by
    simp only [padded, List.append_assoc, List.cons_append]
  have nul : (paddedText (slash :: name) ++ rest).nulAt? (0 + 1) = some name.length := by
    rw [Nat.add_comm, ← Bytes.nulAt_drop, shape, List.drop_one, List.tail_cons]
    exact Bytes.nulAt_text (fun member => noZero (List.mem_cons_of_mem _ member)) _
  rw [length, nul, shape, List.getElem?_cons_zero, if_pos rfl, List.length_cons]

theorem decodeAt_behind {a : Argument} {tag : Tag} {bytes : Bytes} (here : Arguments.decodeAt bytes 0 tag = .ok a)
    (front : Bytes) : Arguments.decodeAt (front ++ bytes) front.length tag = .ok a := by
  have within : front.length ≤ (front ++ bytes).length := by rw [List.length_append]; omega
  have moved := Arguments.decodeAt_drop within 0 tag
  rwa [Nat.add_zero, List.drop_left, here] at moved

theorem decodeAt_front {a : Argument} {tag : Tag} (fits : a.Fits tag) (front rest : Bytes) :
    Arguments.decodeAt (front ++ (a.encode ++ rest)) front.length tag = .ok a :=
  decodeAt_behind (a.decodeAt_encode fits rest) front

theorem span_front {a : Argument} {tag : Tag} (fits : a.Fits tag) (front rest : Bytes) :
    tag.span (front ++ (a.encode ++ rest)) front.length = a.encode.length := by
  have within : front.length ≤ (front ++ (a.encode ++ rest)).length := by rw [List.length_append]; omega
  have here := Tag.span_drop within 0 tag
  rwa [Nat.add_zero, List.drop_left, a.span_encode fits rest] at here

/-- Walking over the tags of some entries finds each value where it was written. What carries it is that
the offset of a value is the length of all that was written before it. -/
theorem decodeAt_layout (entries : List Entry) (front rest : Bytes) :
    let bytes := front ++ (entries.flatMap (fun e => e.value.encode) ++ rest)
    bytes.length < 2 ^ 64 → ∀ index (recorded : index < entries.length),
      ∃ offset, (layout bytes front.length (entries.map Entry.tag))[index]? = some offset ∧
        Arguments.decodeAt bytes offset entries[index].tag = .ok entries[index].value := by
  induction entries generalizing front with
  | nil =>
    intro bytes _ index recorded
    cases recorded
  | cons e entries ih =>
    intro bytes small index recorded
    have shape : bytes = front ++ (e.value.encode ++ (entries.flatMap (fun e => e.value.encode) ++ rest)) := by
      simp only [bytes, List.flatMap_cons, List.append_assoc]
    cases index with
    | zero => exact ⟨front.length, rfl, shape ▸ decodeAt_front e.fits front _⟩
    | succ index =>
      have split : bytes =
          (front ++ e.value.encode) ++ (entries.flatMap (fun e => e.value.encode) ++ rest) := by
        rw [shape, List.append_assoc]
      have next : saturate (front.length + e.tag.span bytes front.length) = (front ++ e.value.encode).length := by
        have whole : bytes.length = (front ++ e.value.encode).length +
            (entries.flatMap (fun e => e.value.encode) ++ rest).length := by
          rw [split, List.length_append]
        rw [shape, span_front e.fits, List.length_append, ← List.length_append]
        unfold saturate
        omega
      obtain ⟨offset, place, value⟩ := ih (front ++ e.value.encode) (split ▸ small) index
        (Nat.lt_of_succ_lt_succ recorded)
      rw [← split] at place value
      exact ⟨offset, by rw [List.map_cons, layout, next, List.getElem?_cons_succ, place], value⟩

/-- A padded address and a padded tag string are found, and the values begin behind them, whatever these are. -/
theorem Message.View.read_head {address : Bytes} (slash : address.head? = some Address.slash) (noZero : 0 ∉ address)
    (tags : List Tag) (values : Bytes) :
    let head := paddedText address ++ tagString tags
    let bytes := head ++ values
    read bytes 0 = .ok ⟨address, bytes, tags.take 32, layout bytes head.length (tags.take 32)⟩ := by
  intro head bytes
  have shape : bytes = paddedText address ++ (tagString tags ++ values) := List.append_assoc ..
  have length : Address.length bytes 0 = .ok address.length := shape ▸ Address.length_paddedText slash noZero _
  have text : bytes.take address.length = address := by
    simp only [shape, paddedText, List.append_assoc, List.take_left]
  have place : 0 + paddedLength address.length = (paddedText address).length := by
    rw [length_paddedText, Nat.zero_add]
  obtain ⟨listed, width⟩ := Tag.listAt_tagString (paddedText address) values tags
  rw [← shape, ← place] at listed width
  have valuesStart : valuesStart bytes (0 + paddedLength address.length) = head.length := by
    rw [Message.View.valuesStart, width, List.length_append, length_tagString, place]
  simp only [read, length, Except.map, List.drop_zero, text, listed, valuesStart]

namespace Draft

theorem tag_recorded (d : Draft) {index : Nat} (recorded : index < d.entries.length) (inTable : index < 32) :
    (d.tags.take 32)[index]? = some d.entries[index].tag := by
  rw [List.getElem?_take_of_lt inTable, tags, List.getElem?_map, List.getElem?_eq_getElem recorded,
    Option.map_some]

/-- A message that was written is found whole, with as many of its entries as a table can hold. -/
theorem read_bytes (d : Draft) (small : d.bytes.length < 2 ^ 64) :
    ∃ v, Message.View.read d.bytes 0 = .ok v ∧ v.address = d.address ∧ v.tags = d.tags.take 32 ∧
      ∀ index (recorded : index < d.entries.length), index < 32 →
        v.get index = .ok d.entries[index].value := by
  refine ⟨⟨d.address, d.bytes, d.tags.take 32, layout d.bytes d.head.length (d.tags.take 32)⟩,
    Message.View.read_head d.slash d.noZero d.tags _, rfl, rfl, ?_⟩
  intro index recorded inTable
  have kept : index < (d.entries.take 32).length := by
    rw [List.length_take]
    omega
  -- The values past the table's end stand behind those that are recorded.
  have shape : d.bytes = d.head ++ ((d.entries.take 32).flatMap (fun e => e.value.encode) ++
      (d.entries.drop 32).flatMap fun e => e.value.encode) := by
    rw [bytes, ← List.flatMap_append, List.take_append_drop]
  obtain ⟨offset, place, value⟩ := decodeAt_layout (d.entries.take 32) d.head
    ((d.entries.drop 32).flatMap fun e => e.value.encode) (shape ▸ small) index kept
  rw [← shape] at place value
  rw [List.map_take] at place
  rw [List.getElem_take] at value
  have slot : (layout d.bytes d.head.length (d.tags.take 32)).getD index 0 = offset := by
    rw [List.getD_eq_getElem?_getD, tags, place, Option.getD_some]
  simp only [Message.View.get, d.tag_recorded recorded inTable, slot, value]

end Draft

end OSC
