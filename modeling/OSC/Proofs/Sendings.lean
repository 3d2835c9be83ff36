import OSC.Client
import OSC.Proofs.Arrivals
import OSC.Proofs.Texts

namespace OSC

/-- What arrives of a value: for a character outside ASCII a question mark, and of a blob as many bytes as the 32 bits of
its length field tell. -/
def Argument.arrived : Argument → Argument
  | .blob content => .blob (content.take (content.length % 2 ^ 32))
  | other => other.asSent

/-- Writes a message the long way: the address, the tags of its values, and then one value after another. -/
def Writer.whole (w : Writer) (address : String) (values : List Argument) : Writer :=
  values.foldl Writer.argument ((w.reset.text address).tags (values.map Argument.tag))

namespace Payload

/-- The values in a message with this payload. -/
def values (e : Encoding) : Payload → List Argument
  | empty => []
  | int value => [.int32 value]
  | long value => [.int64 value]
  | float value => [.float32 value]
  | double value => [.float64 value]
  | text value => [.string (e.encode value)]
  | blob content => [.blob content]
  | pair x y => [.float32 x, .float32 y]
  | triple x y z => [.float32 x, .float32 y, .float32 z]
  | color value => [.color value]
  | midi value => [.midi value]
  | char value => [.char value]
  | bool value => [.bool value]
  | nil => [.nil]
  | infinitum => [.infinitum]
  | timeTag value => [.timeTag value]

/-- What a new writer makes of a message with this payload, written the long way. -/
def packet (e : Encoding) (address : String) (payload : Payload) : Bytes :=
  ((Writer.new e).whole address (payload.values e)).bytes

theorem length_values (e : Encoding) (payload : Payload) : (payload.values e).length ≤ 3 := by
  cases payload <;> simp [values]

end Payload

namespace Writer

theorem whole_eq (w : Writer) (address : String) (values : List Argument) :
    w.whole address values = { w with
      bytes := paddedText (w.encoding.encode address) ++ tagString (values.map Argument.tag) ++
        values.flatMap Argument.encode } := by
  rw [whole, foldl_argument]
  rfl

/-- Packed tags make no difference, where they are the tags of the values. -/
theorem start_packed (w : Writer) (address : String) (values : List Argument) {packed : Bytes}
    (same : packed = tagString (values.map Argument.tag)) :
    (w.start address packed).append (values.flatMap Argument.encode) =
      { w with bytes := ((Writer.new w.encoding).whole address values).bytes } := by
  rw [whole_eq, same]
  rfl

end Writer

theorem tagString_one (tag : Tag) : tagString [tag] = tag.alone := by
  simp [tagString, paddedText, paddedLength, align4, Bytes.zeros, Tag.alone, List.replicate]

theorem tagString_none : tagString [] = Client.noTags := by decide

theorem tagString_pair : tagString [.float32, .float32] = Client.pairTags := by decide

namespace Client

/-- Each of the ways to send comes to the long way. What the writer held before is gone. -/
theorem send_writer (c : Client) (address : String) (payload : Payload) :
    (c.send address payload).writer = { c.writer with bytes := payload.packet c.writer.encoding address } := by
  have one (a : Argument) : (c.writer.start address a.tag.alone).argument a =
      { c.writer with bytes := ((Writer.new c.writer.encoding).whole address [a]).bytes } := by
    have packed := c.writer.start_packed address [a] (tagString_one a.tag).symm
    rwa [List.flatMap_singleton] at packed
  cases payload with
  | int value => exact one (.int32 value)
  | long value => exact one (.int64 value)
  | float value => exact one (.float32 value)
  | double value => exact one (.float64 value)
  | text value => exact one (.string (c.writer.encoding.encode value))
  | blob content => exact one (.blob content)
  | color value => exact one (.color value)
  | midi value => exact one (.midi value)
  | char value => exact one (.char value)
  | bool value => exact one (.bool value)
  | nil => exact one .nil
  | infinitum => exact one .infinitum
  | timeTag value => exact one (.timeTag value)
  | empty =>
    have packed := c.writer.start_packed address [] tagString_none.symm
    rwa [List.flatMap_nil, Writer.append, List.append_nil] at packed
  | pair x y => exact c.writer.start_packed address [.float32 x, .float32 y] tagString_pair.symm
  | triple x y z => exact c.writer.start_packed address [.float32 x, .float32 y, .float32 z] rfl

/-- The packets made by some calls, one after another. -/
def packets (c : Client) : List (String × Payload) → List Bytes
  | [] => []
  | (address, payload) :: rest => (c.send address payload).sent :: (c.send address payload).packets rest

/-- A packet owes nothing to the calls before it. -/
theorem packets_eq (c : Client) (sends : List (String × Payload)) :
    c.packets sends = sends.map fun (address, payload) => payload.packet c.writer.encoding address := by
  induction sends generalizing c with
  | nil => rfl
  | cons call rest ih =>
    have sent := c.send_writer call.1 call.2
    rw [packets, ih, List.map_cons, Client.sent, sent]

end Client

theorem Argument.fits_tag {a : Argument} (noZero : ∀ text, a = .string text → 0 ∉ text)
    (short : ∀ content, a = .blob content → content.length < 2 ^ 32) : a.asSent.Fits a.tag := by
  cases a with
  | string text => exact ⟨Or.inl rfl, noZero text rfl⟩
  | blob content => exact ⟨rfl, short content rfl⟩
  | char c =>
    refine ⟨rfl, ?_⟩
    split
    · assumption
    · decide
  | _ => rfl

theorem Argument.entries {values : List Argument} (fit : ∀ a ∈ values, a.asSent.Fits a.tag) :
    ∃ entries : List Entry, entries.map Entry.tag = values.map Argument.tag ∧
      entries.map Entry.value = values.map Argument.asSent := by
  induction values with
  | nil => exact ⟨[], rfl, rfl⟩
  | cons a rest ih =>
    obtain ⟨first, others⟩ := List.forall_mem_cons.mp fit
    obtain ⟨entries, sameTags, sameValues⟩ := ih others
    exact ⟨⟨a.tag, a.asSent, first⟩ :: entries, by rw [List.map_cons, List.map_cons, sameTags],
      by rw [List.map_cons, List.map_cons, sameValues]⟩

/-- A packet at the front of a buffer is found there as one message, with this address and these values. -/
def PacketBuffer.Receives (p : PacketBuffer) (packet address : Bytes) (tags : List Tag) (values : List Argument) :
    Prop :=
  ∃ found width, (p.load 0 packet).1.parse packet.length = .ok (found, width) ∧ found.message.address = address ∧
    found.message.arguments.table.tags = tags ∧ found.message.arguments.toList = values.map .ok

namespace Payload

/-- A text that is sent holds no NUL. -/
def Sendable : Payload → Prop
  | text value => '\x00' ∉ value.toList
  | _ => True

theorem noZero_of_text {e : Encoding} {payload : Payload} (sendable : payload.Sendable) {text : Bytes}
    (among : .string text ∈ payload.values e) : 0 ∉ text := by
  cases payload with
  | text value =>
    cases List.mem_singleton.mp among
    exact e.noZero_encode sendable
  | _ => simp [values] at among

/-- Whether the length of a blob fits the field in front of it. -/
def Fits : Payload → Prop
  | blob content => content.length < 2 ^ 32
  | _ => True

theorem short_of_fits {e : Encoding} {payload : Payload} (fits : payload.Fits) {content : Bytes}
    (among : .blob content ∈ payload.values e) : content.length < 2 ^ 32 := by
  cases payload with
  | blob sent =>
    cases List.mem_singleton.mp among
    exact fits
  | _ => simp [values] at among

/-- Nothing but a blob that is too long for its length field is cut short on its way. -/
theorem arrived_iff (e : Encoding) (payload : Payload) :
    (payload.values e).map Argument.arrived = (payload.values e).map Argument.asSent ↔ payload.Fits := by
  cases payload with
  | blob content =>
    show [Argument.blob (content.take (content.length % 2 ^ 32))] = [Argument.blob content] ↔ content.length < 2 ^ 32
    rw [List.singleton_inj, Argument.blob.injEq]
    constructor
    · intro whole
      have length := congrArg List.length whole
      rw [List.length_take] at length
      omega
    · intro short
      rw [Nat.mod_eq_of_lt short, List.take_length]
  | _ => exact iff_of_true rfl trivial

section

variable {e : Encoding} {address : String} {p : PacketBuffer}

/-- A packet whose blob is not too long is received as it was sent. -/
theorem receives_fitting {payload : Payload} (slash : address.toList.head? = some '/')
    (noNul : '\x00' ∉ address.toList) (sendable : payload.Sendable) (fits : payload.Fits)
    (small : p.capacity < Bytes.limit) (room : (payload.packet e address).length ≤ p.capacity) :
    p.Receives (payload.packet e address) (e.encode address) ((payload.values e).map Argument.tag)
      ((payload.values e).map Argument.asSent) := by
  have fit : ∀ a ∈ payload.values e, a.asSent.Fits a.tag := fun a among => Argument.fits_tag
    (fun _ same => noZero_of_text sendable (same ▸ among)) (fun _ same => short_of_fits fits (same ▸ among))
  obtain ⟨entries, tags, sent⟩ := Argument.entries fit
  let d : Draft := ⟨e.encode address, entries, e.head_encode slash (by decide), e.noZero_encode noNul⟩
  have bytes : payload.packet e address = d.bytes := by
    rw [packet, Writer.whole_eq, Draft.bytes, Draft.head, Draft.tags, tags, Entry.flatMap_encode sent]
    rfl
  have few : d.entries.length ≤ 32 := by
    have lengths := congrArg List.length tags
    rw [List.length_map, List.length_map] at lengths
    have three := payload.length_values e
    exact Nat.le_trans (lengths ▸ three) (by decide)
  rw [bytes] at room ⊢
  obtain ⟨found, parsed, sameAddress, sameTags, each⟩ := PacketBuffer.parse_load_bytes d few small room
  refine ⟨found, _, parsed, sameAddress, sameTags.trans tags, ?_⟩
  rw [← sent]
  exact d.toList_values sameTags each

theorem packet_blob (e : Encoding) (address : String) (content : Bytes) :
    (blob content).packet e address = paddedText (e.encode address) ++ tagString [.blob] ++ paddedBlob content := by
  rw [packet, Writer.whole_eq, values, List.flatMap_singleton]
  rfl

/-- A blob of any length is received as a blob, of which there is as much as its length field tells. -/
theorem receives_blob {content : Bytes} (slash : address.toList.head? = some '/') (noNul : '\x00' ∉ address.toList)
    (room : ((blob content).packet e address).length ≤ p.capacity) :
    p.Receives ((blob content).packet e address) (e.encode address) [.blob]
      [.blob (content.take (content.length % 2 ^ 32))] := by
  have shown := Message.View.read_head (e.head_encode slash (by decide)) (e.noZero_encode noNul) [.blob]
    (paddedBlob content)
  have here : Arguments.decodeAt (paddedBlob content) 0 .blob =
      .ok (.blob (content.take (content.length % 2 ^ 32))) := by
    have taken := Arguments.blobAt_paddedBlob content []
    rw [List.append_nil] at taken
    rw [Arguments.decodeAt, taken]
    rfl
  rw [packet_blob] at room ⊢
  obtain ⟨found, parsed, view⟩ := PacketBuffer.parse_load room shown
  refine ⟨found, _, parsed, congrArg Message.View.address view, congrArg Message.View.tags view, ?_⟩
  rw [Message.toList_view, view]
  exact congrArg (fun x => [x]) (decodeAt_behind here _)

/-- A packet that was sent is received with what arrives of its values. -/
theorem receives_packet {payload : Payload} (slash : address.toList.head? = some '/')
    (noNul : '\x00' ∉ address.toList) (sendable : payload.Sendable) (small : p.capacity < Bytes.limit)
    (room : (payload.packet e address).length ≤ p.capacity) :
    p.Receives (payload.packet e address) (e.encode address) ((payload.values e).map Argument.tag)
      ((payload.values e).map Argument.arrived) := by
  by_cases fits : payload.Fits
  · rw [(payload.arrived_iff e).mpr fits]
    exact receives_fitting slash noNul sendable fits small room
  · cases payload with
    | blob content => exact receives_blob slash noNul room
    | _ => exact absurd trivial fits

end

end Payload

namespace Client

/-- Every call makes the packet that a new writer makes the long way, whatever was sent before. Wherever there is room
for the packet, it is delivered as one message with the address that was sent and with what arrives of the values. They
arrive as they were sent just when the length of a blob fits its field. -/
theorem packets_delivered (c : Client) (sends : List (String × Payload)) :
    let e := c.writer.encoding
    c.packets sends = sends.map (fun (address, payload) => payload.packet e address) ∧
      ∀ address payload, (address, payload) ∈ sends →
        address.toList.head? = some '/' → '\x00' ∉ address.toList → payload.Sendable →
        let packet := payload.packet e address
        ∀ p : PacketBuffer, p.capacity < Bytes.limit → packet.length ≤ p.capacity →
          ∃ m : Message, m.address = e.encode address ∧
            m.arguments.table.tags = (payload.values e).map Argument.tag ∧
            m.arguments.toList = ((payload.values e).map Argument.arrived).map .ok ∧
            (m.arguments.toList = ((payload.values e).map Argument.asSent).map .ok ↔ payload.Fits) ∧
            ∀ {ι σ : Type} [DecidableEq ι] (behave : Behaviour ι σ) (d : Dispatcher ι σ), behave.Returns →
              (d.handle behave (p.load 0 packet).1 packet.length).1.calls = d.callbacks.map (⟨·, m⟩) := by
  intro e
  refine ⟨c.packets_eq sends, ?_⟩
  intro address payload _ slash noNul sendable packet p small room
  obtain ⟨found, width, parsed, sameAddress, tags, all⟩ := Payload.receives_packet slash noNul sendable small room
  refine ⟨found.message, sameAddress, tags, all, ?_, fun behave d returns => Dispatcher.handle_one returns d parsed⟩
  rw [all, ← payload.arrived_iff e]
  exact List.map_inj_right fun _ _ => Except.ok.inj

/-- Calls whose packets grow and shrink, with characters that ASCII lacks. -/
def calls : List (String × Payload) :=
  [("/é", .text "aé"), ("/abc", .pair ⟨1⟩ ⟨2⟩), ("/a", .char 'é'), ("/", .empty), ("/b", .blob [1, 2, 3])]

theorem packets_delivered_calls :
    let packet : Bytes := [47, 97, 0, 0, 44, 99, 0, 0, 0, 0, 0, 63]
    (new .ascii).packets calls = calls.map (fun (address, payload) => payload.packet .ascii address) ∧
      (new .ascii).packets calls =
        [[47, 63, 0, 0, 44, 115, 0, 0, 97, 63, 0, 0],
          [47, 97, 98, 99, 0, 0, 0, 0, 44, 102, 102, 0, 0, 0, 0, 1, 0, 0, 0, 2], packet,
          [47, 0, 0, 0, 44, 0, 0, 0], [47, 98, 0, 0, 44, 98, 0, 0, 0, 0, 0, 3, 1, 2, 3, 0]] ∧
      ("/a", .char 'é') ∈ calls ∧ (PacketBuffer.new 256).capacity < Bytes.limit ∧
        packet.length ≤ (PacketBuffer.new 256).capacity ∧ Behaviour.recording.Returns ∧
        ∃ m : Message, m.address = [47, 97] ∧ m.arguments.toList = [.ok (.char '?')] ∧
          (Dispatcher.handle .recording ⟨[(), ()], []⟩ ((PacketBuffer.new 256).load 0 packet).1
            packet.length).1.calls = [⟨(), m⟩, ⟨(), m⟩] := by
  have small : (PacketBuffer.new 256).capacity < Bytes.limit := by
    rw [PacketBuffer.capacity_new]
    decide
  have room : 12 ≤ (PacketBuffer.new 256).capacity := by
    rw [PacketBuffer.capacity_new]
    decide
  have member : ("/a", Payload.char 'é') ∈ calls := by simp [calls]
  obtain ⟨packets, delivered⟩ := packets_delivered (new .ascii) calls
  obtain ⟨m, address, _, values, _, handled⟩ :=
    delivered "/a" (.char 'é') member (by decide) (by decide) trivial (.new 256) small room
  have bytes : (Payload.char 'é').packet (new .ascii).writer.encoding "/a" =
      [47, 97, 0, 0, 44, 99, 0, 0, 0, 0, 0, 63] := by
    decide
  have heard := handled .recording ⟨[(), ()], []⟩ Behaviour.recording_returns
  rw [bytes] at heard
  exact ⟨packets, by decide, member, small, room, Behaviour.recording_returns, m, address, values, heard⟩

/-- A blob of 4 GiB is sent under the length zero, and is delivered as an empty blob. -/
theorem blob_delivered_empty :
    let content : Bytes := List.replicate (2 ^ 32) 7
    let packet := (Payload.blob content).packet .ascii "/b"
    let p := PacketBuffer.new (2 ^ 33)
    (new .ascii).packets [("/b", .blob content)] = [packet] ∧
      p.capacity < Bytes.limit ∧ packet.length ≤ p.capacity ∧
      ∃ m : Message, m.arguments.toList = [.ok (.blob [])] ∧ m.arguments.toList ≠ [.ok (.blob content)] ∧
        (Dispatcher.handle .recording ⟨[(), ()], []⟩ (p.load 0 packet).1 packet.length).1.calls =
          [⟨(), m⟩, ⟨(), m⟩] := by
  intro content packet p
  have size : content.length = 2 ^ 32 := List.length_replicate ..
  have capacity : p.capacity = 2 ^ 33 := PacketBuffer.capacity_new (2 ^ 33)
  have room : packet.length ≤ p.capacity := by
    have head : (paddedText (Encoding.ascii.encode "/b") ++ tagString [.blob]).length = 8 := by decide
    have length : packet.length = 8 + (4 + align4 content.length) := by
      rw [← length_paddedBlob, ← head, ← List.length_append]
      exact congrArg List.length (Payload.packet_blob .ascii "/b" content)
    rw [length, size, capacity]
    decide
  obtain ⟨found, width, parsed, _, _, all⟩ := Payload.receives_blob (by decide) (by decide) room
  rw [size, Nat.mod_self, List.take_zero] at all
  refine ⟨(new .ascii).packets_eq _, by rw [capacity]; decide, room, found.message, all, ?_,
    Dispatcher.handle_one Behaviour.recording_returns _ parsed⟩
  intro whole
  have empty : ([] : Bytes) = content :=
    Argument.blob.inj (Except.ok.inj (List.cons.inj (Eq.trans (Eq.symm all) whole)).1)
  rw [← empty] at size
  cases size

end Client

end OSC
