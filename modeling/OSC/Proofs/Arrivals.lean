import OSC.Proofs.Deliveries
import OSC.Proofs.Registrations
import OSC.Proofs.Renewals

namespace OSC

namespace PacketBuffer

variable {p found : PacketBuffer}

theorem bytes_of_parseAt {start stop length : Nat} (parsed : p.parseAt start stop = .ok (found, length)) :
    found.bytes = p.bytes := by
  rw [parseAt_eq] at parsed
  obtain ⟨n, _, equal⟩ := ok_of_map parsed
  cases equal
  rfl

theorem unpack_of_parse {length width : Nat} (parsed : p.parse length = .ok (found, width)) :
    p.unpack length = [found] := by
  rw [unpack, not_bundleAt_of_parseAt parsed, parsed]
  rfl

/-- What was found is a message in these bytes, whatever else the buffer held. -/
def Shows (p found : PacketBuffer) : Prop :=
  ∃ (q : PacketBuffer) (start stop length : Nat), q.bytes = p.bytes ∧ q.parseAt start stop = .ok (found, length)

theorem shows_of_unpackElements {elements : List Extent} (member : found ∈ p.unpackElements elements) :
    p.Shows found := by
  induction elements generalizing p with
  | nil => cases member
  | cons e rest ih =>
    rw [unpackElements] at member
    split at member
    · exact ih member
    · split at member
      · rename_i now length parsed
        rcases List.mem_cons.mp member with rfl | later
        · exact ⟨p, e.start, e.stop, length, rfl, parsed⟩
        · obtain ⟨q, start, stop, width, same, parsedLater⟩ := ih later
          exact ⟨q, start, stop, width, same.trans (bytes_of_parseAt parsed), parsedLater⟩
      · exact ih member

/-- Each message that a packet is unpacked to was found in its bytes, alone or in a bundle. -/
theorem shows_of_unpack {length : Nat} (member : found ∈ p.unpack length) : p.Shows found := by
  unfold unpack at member
  split at member
  · split at member
    · exact shows_of_unpackElements member
    · cases member
  · split at member
    · rename_i now width parsed
      rw [List.mem_singleton.mp member]
      exact ⟨p, 0, length, width, rfl, parsed⟩
    · cases member

end PacketBuffer

namespace Dispatcher

variable {ι σ : Type} [DecidableEq ι] {behave : Behaviour ι σ}

/-- Callbacks are called with nothing but messages that are in the packet. -/
theorem shows_of_handle {d : Dispatcher ι σ} {p : PacketBuffer} {length : Nat} {call : Call ι}
    (member : call ∈ (d.handle behave p length).1.calls) :
    ∃ found, p.Shows found ∧ call.message = found.message := by
  have due := (deliver_follows behave d.callbacks d p (p.unpack length)).first.subset member
  obtain ⟨found, unpacked, called⟩ := List.mem_flatMap.mp due
  obtain ⟨callback, _, rfl⟩ := List.mem_map.mp called
  exact ⟨found, PacketBuffer.shows_of_unpack unpacked, rfl⟩

/-- The one message of a packet goes to each of the callbacks. -/
theorem handle_one (returns : behave.Returns) (d : Dispatcher ι σ) {p found : PacketBuffer} {length width : Nat}
    (parsed : p.parse length = .ok (found, width)) :
    (d.handle behave p length).1.calls = d.callbacks.map (⟨·, found.message⟩) := by
  have follows := deliver_follows behave d.callbacks d p [found]
  rw [handle, PacketBuffer.unpack_of_parse parsed, follows.all (follows.returns returns), List.flatMap_cons,
    List.flatMap_nil, List.append_nil]

end Dispatcher

end OSC
