import Mathlib.Data.List.Forall2
import OSC.Proofs.Drafts

namespace OSC

/-- What can be sent: a message, or a bundle of what can be sent, to any depth. -/
inductive Packet
  | message (draft : Draft)
  | bundle (time : TimeTag) (elements : List Packet)

mutual

/-- Writes what is to be an element of a bundle. None of it is written if a size has no room. -/
def Writer.packet? (w : Writer) : Packet → Option Writer
  | .message d => some (w.draft d)
  | .bundle time elements => ((w.text "#bundle").argument (.timeTag time)).elements? elements

/-- Writes elements of a bundle, each between its beginning and its end. -/
def Writer.elements? (w : Writer) : List Packet → Option Writer
  | [] => some w
  | element :: rest => do
    let (begun, mark) := w.beginElement
    let filled ← begun.packet? element
    let ended ← filled.endElement? mark
    ended.elements? rest

end

/-- Writes a bundle in place of whatever the writer holds. -/
def Writer.rootBundle? (w : Writer) (time : TimeTag) (elements : List Packet) : Option Writer :=
  (w.bundle time).elements? elements

mutual

def Packet.bytes : Packet → Bytes
  | .message d => d.bytes
  | .bundle time elements => Bundle.marker ++ (time.toBytes ++ Packet.elementBytes elements)

/-- Elements one after another, each behind its size. -/
def Packet.elementBytes : List Packet → Bytes
  | [] => []
  | element :: rest =>
    Bytes.ofNat 4 element.bytes.length ++ (element.bytes ++ Packet.elementBytes rest)

end

theorem text_marker (e : Encoding) : paddedText (e.encode "#bundle") = Bundle.marker := by
  cases e <;> decide

/-- Filling in a size changes the four bytes at its mark, and nothing before or behind them. -/
theorem Writer.endElement_appended (e : Encoding) (before after : Bytes) :
    (Writer.mk e (before ++ (Bytes.zeros 4 ++ after))).endElement? before.length =
      some ⟨e, before ++ (Bytes.ofNat 4 after.length ++ after)⟩ := by
  have length : (before ++ (Bytes.zeros 4 ++ after)).length = before.length + (4 + after.length) := by
    simp only [List.length_append, Bytes.zeros, List.length_replicate]
  have front : (before ++ (Bytes.zeros 4 ++ after)).take before.length = before := List.take_left ..
  have rest : (before ++ (Bytes.zeros 4 ++ after)).drop (before.length + 4) = after := by
    rw [List.drop_length_add_append]
    rfl
  have size : (before ++ (Bytes.zeros 4 ++ after)).length - before.length - 4 = after.length := by omega
  simp only [endElement?, size, front, rest, List.append_assoc]
  rw [if_pos (by omega)]

mutual

/-- What is written is behind all that was written before, with every size filled in. -/
theorem Writer.packet_appended (w : Writer) (packet : Packet) :
    w.packet? packet = some (w.append packet.bytes) := by
  cases packet with
  | message d => rw [Writer.packet?, Draft.writer_appended, Packet.bytes]
  | bundle time elements =>
    have marker : w.text "#bundle" = w.append Bundle.marker := congrArg w.append (text_marker w.encoding)
    rw [Writer.packet?, Writer.elements_appended, marker, Writer.argument, Writer.append_append,
      Writer.append_append, Packet.bytes, Argument.encode]

theorem Writer.elements_appended (w : Writer) (elements : List Packet) :
    w.elements? elements = some (w.append (Packet.elementBytes elements)) := by
  cases elements with
  | nil => simp only [Writer.elements?, Packet.elementBytes, Writer.append, List.append_nil]
  | cons element rest =>
    have filled := Writer.packet_appended (w.append (Bytes.zeros 4)) element
    have ended : ((w.append (Bytes.zeros 4)).append element.bytes).endElement? w.bytes.length =
        some (w.append (Bytes.ofNat 4 element.bytes.length ++ element.bytes)) := by
      rw [Writer.append_append]
      exact Writer.endElement_appended w.encoding w.bytes element.bytes
    have others := Writer.elements_appended (w.append (Bytes.ofNat 4 element.bytes.length ++ element.bytes)) rest
    rw [Writer.append_append, List.append_assoc] at others
    simp only [Writer.elements?, Writer.beginElement, filled, ended, others, bind, Option.bind, Packet.elementBytes]

end

theorem Writer.reset_append (w : Writer) (bytes : Bytes) : w.reset.append bytes = ⟨w.encoding, bytes⟩ := rfl

theorem Writer.bundle_eq (w : Writer) (time : TimeTag) :
    w.bundle time = ⟨w.encoding, Bundle.marker ++ time.toBytes⟩ := by
  rw [bundle, argument, append_append, Argument.encode, reset_append]

/-- Writing a bundle never wants for room. -/
theorem Writer.rootBundle_bytes (w : Writer) (time : TimeTag) (elements : List Packet) :
    w.rootBundle? time elements = some ⟨w.encoding, (Packet.bundle time elements).bytes⟩ := by
  rw [rootBundle?, elements_appended, bundle_eq, Packet.bytes, ← List.append_assoc]
  rfl

end OSC
