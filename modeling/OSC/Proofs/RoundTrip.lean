import OSC.Proofs.Drafts

namespace OSC

/-- Wherever the bytes of a message stand in a buffer, the message is found there. Nothing is asked of the
place, nor of what was found before. -/
theorem PacketBuffer.parseAt_bytes {p : PacketBuffer} {start stop : Nat} (d : Draft)
    (small : p.capacity < Bytes.limit) (within : start ≤ (p.bytes.take stop).length)
    (written : (p.bytes.take stop).drop start = d.bytes) :
    ∃ found, p.parseAt start stop = .ok (found, d.address.length) ∧ found.address = d.address ∧
      found.table.tags = d.tags.take 32 ∧
      ∀ index (recorded : index < d.entries.length), index < 32 →
        found.arguments.get index = .ok d.entries[index].value := by
  have bound : (p.bytes.take stop).length < Bytes.limit := by
    rw [capacity] at small
    rw [List.length_take]
    omega
  have shorter : d.bytes.length ≤ (p.bytes.take stop).length := by
    rw [← written, List.length_drop]
    omega
  obtain ⟨v, read, address, tags, values⟩ := d.read_bytes (by unfold Bytes.limit at bound; omega)
  have moved := Message.View.read_drop within bound 0
  rw [written, read, Nat.add_zero] at moved
  rcases p.parseAt_cases start stop with ⟨q, w, readHere, parsed, view, _⟩ | ⟨e, readHere, _⟩
  · rw [moved] at readHere
    cases readHere
    have here : q.address = v.address := congrArg Message.View.address view
    refine ⟨q, ?_, here.trans address, (congrArg Message.View.tags view).trans tags, ?_⟩
    · rw [parsed]
      exact congrArg (fun text : Bytes => Except.ok (q, text.length)) address
    · intro index recorded inTable
      have value := q.message.get_view index
      rw [view, Message.View.get_moved within (written ▸ read), values index recorded inTable] at value
      exact value
  · rw [moved] at readHere
    cases readHere

/-- A message that is written and copied to any place of any buffer is found there, and its first 32
arguments are read back. -/
theorem PacketBuffer.parseAt_load_draft (d : Draft) (w : Writer) (p : PacketBuffer) (position : Nat)
    (small : p.capacity < Bytes.limit)
    (room : position + (w.reset.draft d).bytes.length ≤ p.capacity) :
    let packet := (w.reset.draft d).bytes
    ∃ found, (p.load position packet).1.parseAt position (position + packet.length) =
        .ok (found, d.address.length) ∧
      found.address = d.address ∧ found.arguments.count = min d.entries.length 32 ∧
      ∀ index (recorded : index < d.entries.length), index < 32 →
        found.arguments.tag index = .ok d.entries[index].tag ∧
        found.arguments.get index = .ok d.entries[index].value := by
  intro packet
  have packed : packet = d.bytes := Draft.writer_draft w d
  rw [Draft.writer_draft] at room
  have front : (p.bytes.take position).length = position := by
    rw [capacity] at room
    rw [List.length_take]
    omega
  have loaded : (p.load position packet).1.bytes.take (position + packet.length) =
      p.bytes.take position ++ packet := load_slice (packed ▸ room)
  have smallNow : (p.load position packet).1.capacity < Bytes.limit := by rwa [load_capacity]
  have within : position ≤ ((p.load position packet).1.bytes.take (position + packet.length)).length := by
    rw [loaded, List.length_append]
    omega
  have written : ((p.load position packet).1.bytes.take (position + packet.length)).drop position = d.bytes := by
    rw [loaded, ← packed]
    exact List.drop_left' front
  obtain ⟨found, parsed, address, tags, values⟩ := parseAt_bytes d smallNow within written
  have recordedTags : found.arguments.table.tags = d.tags.take 32 := tags
  refine ⟨found, parsed, address, ?_, ?_⟩
  · rw [Arguments.count, Table.count, recordedTags, List.length_take, Draft.tags, List.length_map, Nat.min_comm]
  · intro index recorded inTable
    refine ⟨?_, values index recorded inTable⟩
    rw [Arguments.tag, recordedTags, d.tag_recorded recorded inTable]

/-- Some entries under one address: a symbol, a value without bytes, and a number. -/
def Draft.sample : Draft where
  address := [47, 97, 98]
  entries := [⟨.symbol, .string [104, 105], ⟨Or.inr rfl, by decide⟩⟩, ⟨.nil, .nil, rfl⟩, ⟨.int32, .int32 7, rfl⟩]
  slash := rfl
  noZero := by decide

theorem PacketBuffer.parseAt_load_sample :
    (PacketBuffer.new 256).capacity < Bytes.limit ∧
      3 + ((Writer.new .ascii).reset.draft .sample).bytes.length ≤ (PacketBuffer.new 256).capacity ∧
      let packet := ((Writer.new .ascii).reset.draft .sample).bytes
      ∃ found, ((PacketBuffer.new 256).load 3 packet).1.parseAt 3 (3 + packet.length) = .ok (found, 3) ∧
        found.address = [47, 97, 98] ∧ found.arguments.count = 3 ∧
        ∀ index (recorded : index < Draft.sample.entries.length), index < 32 →
          found.arguments.tag index = .ok Draft.sample.entries[index].tag ∧
          found.arguments.get index = .ok Draft.sample.entries[index].value := by
  have small : (PacketBuffer.new 256).capacity < Bytes.limit := by rw [capacity_new]; decide
  have room : 3 + ((Writer.new .ascii).reset.draft .sample).bytes.length ≤ (PacketBuffer.new 256).capacity := by
    rw [capacity_new]; decide
  exact ⟨small, room, parseAt_load_draft .sample (.new .ascii) (.new 256) 3 small room⟩

end OSC
