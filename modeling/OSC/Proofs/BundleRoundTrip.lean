import OSC.Proofs.BundleElements
import OSC.Proofs.Packets
import OSC.Proofs.Registrations
import OSC.Proofs.RoundTrip
import OSC.Proofs.Tilings

namespace OSC

/-- A message says what a draft says, as far as a table can hold it. -/
structure Draft.ReadAs (d : Draft) (m : Message) : Prop where
  address : m.address = d.address
  tags : m.arguments.table.tags = d.tags.take 32
  get : ∀ index (recorded : index < d.entries.length), index < 32 →
    m.arguments.get index = .ok d.entries[index].value

theorem Draft.ReadAs.of_view {d : Draft} {m n : Message} (readAs : d.ReadAs m) (same : n.view = m.view) :
    d.ReadAs n where
  address := (congrArg Message.View.address same).trans readAs.address
  tags := (congrArg Message.View.tags same).trans readAs.tags
  get := fun index recorded inTable => by
    rw [n.get_view, same, ← m.get_view, readAs.get index recorded inTable]

/-- What is read at a place of a buffer: a message that begins like no bundle, or a bundle whose elements
follow one another to its end without a fault, where each of them is read in turn. -/
inductive PacketBuffer.Holds (p : PacketBuffer) : Extent → Packet → Prop
  | message {e : Extent} {d : Draft} {found : PacketBuffer} : p.isBundleAt e.start = false →
      p.parseAt e.start e.stop = .ok (found, d.address.length) → d.ReadAs found.message →
      p.Holds e (.message d)
  | bundle {e : Extent} {time : TimeTag} {elements : List Packet} {cursor : Bundle.Cursor}
      {extents : List Extent} : p.isBundleAt e.start = true →
      Bundle.open? p.bytes e.start e.stop = .ok (time, cursor) →
      cursor.items p.bytes = extents.map .ok → List.Forall₂ p.Holds extents elements →
      p.Holds e (.bundle time elements)

namespace Bundle

variable {bytes : Bytes}

theorem toNat_toBytes (time : TimeTag) : TimeTag.ofNat (Bytes.toNat time.toBytes) = time := by
  rw [TimeTag.toBytes, Bytes.toNat_ofNat, Nat.mod_eq_of_lt time.toNat_lt, TimeTag.ofNat_toNat]

/-- The header of a bundle is read back where it was written. -/
theorem open_written {start stop : Nat} {time : TimeTag} {rest : Bytes} (order : start ≤ stop)
    (within : stop ≤ bytes.length) (written : (bytes.take stop).drop start = marker ++ (time.toBytes ++ rest)) :
    open? bytes start stop = .ok (time, ⟨start + 16, stop⟩) := by
  have length : (bytes.take stop).length = stop := List.length_take_of_le within
  have place : start ≤ (bytes.take stop).length := by omega
  have marked : isMarkedAt (bytes.take stop) start := by
    have moved := Bytes.slice_drop place 0 8
    rw [written, Nat.add_zero] at moved
    rw [marked_iff, ← moved, Bytes.slice?, if_pos (by rw [List.length_append]; simp [marker]), List.drop_zero]
    exact congrArg some (List.take_left' rfl)
  have behind : (bytes.take stop).drop (start + 8) = time.toBytes ++ rest := by
    rw [← List.drop_drop, written]
    exact List.drop_left' rfl
  have size : time.toBytes.length = 8 := Bytes.length_ofNat 8 _
  have room : start + 8 ≤ (bytes.take stop).length := by
    have lengths := congrArg List.length written
    rw [List.length_drop, List.length_append, List.length_append, size] at lengths
    simp only [marker, List.length_cons, List.length_nil] at lengths
    omega
  have word : Bytes.word? (bytes.take stop) (start + 8) 8 = some (Bytes.toNat time.toBytes) := by
    have moved := Bytes.word_drop room 0 8
    rw [behind, Nat.add_zero] at moved
    rw [← moved, ← size]
    exact Bytes.word_front ..
  simp only [open?, Nat.min_eq_left within, if_pos marked, word, toNat_toBytes]

/-- The cursor gives each element that was written, and then nothing. -/
theorem items_written (elements : List Packet) {position stop : Nat} (within : stop ≤ bytes.length)
    (written : (bytes.take stop).drop position = Packet.elementBytes elements)
    (short : (Packet.elementBytes elements).length < 2 ^ 31) :
    ∃ extents : List Extent, (Cursor.mk position stop).items bytes = extents.map .ok ∧
      List.Forall₂ (fun e (element : Packet) => e.start ≤ e.stop ∧ e.stop ≤ stop ∧
        e.content bytes = element.bytes ∧ element.bytes.length < 2 ^ 31) extents elements := by
  induction elements generalizing position with
  | nil =>
    have lengths := congrArg List.length written
    rw [Packet.elementBytes, List.length_nil, List.length_drop, List.length_take_of_le within] at lengths
    have ended : (Cursor.mk position stop).next? bytes = none := Cursor.next_eq_none.mpr (by dsimp only; omega)
    exact ⟨[], Cursor.items_none ended, .nil⟩
  | cons element rest ih =>
    have region : (bytes.take stop).drop position = sized element.bytes ++ Packet.elementBytes rest := by
      rw [written, Packet.elementBytes, sized, List.append_assoc]
    rw [Packet.elementBytes, List.length_append, List.length_append] at short
    have small : element.bytes.length < 2 ^ 31 := by omega
    obtain ⟨word, inside, content, behind⟩ := size_of_region within small region
    obtain ⟨extents, items, located⟩ := ih behind (by omega)
    exact ⟨_ :: extents, by rw [Cursor.items_some (Cursor.next_of_size word small inside), items, List.map_cons],
      .cons ⟨by dsimp only; omega, inside, content, small⟩ located⟩

end Bundle

namespace Packet

variable {p : PacketBuffer}

mutual

/-- What was written is read back at any place of any buffer. -/
theorem held (small : p.capacity < Bytes.limit) (packet : Packet) {e : Extent} (order : e.start ≤ e.stop)
    (within : e.stop ≤ p.bytes.length) (written : e.content p.bytes = packet.bytes)
    (short : packet.bytes.length < 2 ^ 31) : p.Holds e packet := by
  have place : e.start ≤ (p.bytes.take e.stop).length := by rw [List.length_take_of_le within]; exact order
  cases packet with
  | message d =>
    rw [Packet.bytes] at written
    obtain ⟨found, parsed, address, tags, get⟩ := PacketBuffer.parseAt_bytes d small place written
    exact .message (PacketBuffer.not_bundleAt_of_parseAt parsed) parsed ⟨address, tags, get⟩
  | bundle time elements =>
    rw [Packet.bytes] at written short
    have size := congrArg List.length written
    rw [Extent.length_content within] at size
    have eight : time.toBytes.length = 8 := Bytes.length_ofNat 8 _
    rw [List.length_append, List.length_append, eight, show Bundle.marker.length = 8 from rfl] at short size
    have opened := Bundle.open_written order within written
    have behind : (p.bytes.take e.stop).drop (e.start + 16) = Packet.elementBytes elements := by
      have header : (Bundle.marker ++ time.toBytes).length = 16 := by
        rw [List.length_append, eight]
        rfl
      have whole : (p.bytes.take e.stop).drop e.start =
          (Bundle.marker ++ time.toBytes) ++ Packet.elementBytes elements := by
        rw [List.append_assoc]
        exact written
      rw [← List.drop_drop, whole]
      exact List.drop_left' header
    obtain ⟨extents, items, located⟩ := Bundle.items_written elements within behind (by omega)
    refine .bundle (Bundle.marked_of_take (Bundle.marked_of_open opened)) opened items ?_
    exact Packet.held_elements small within elements located

theorem held_elements (small : p.capacity < Bytes.limit) {stop : Nat} (within : stop ≤ p.bytes.length)
    (elements : List Packet) {extents : List Extent}
    (located : List.Forall₂ (fun e (element : Packet) => e.start ≤ e.stop ∧ e.stop ≤ stop ∧
      e.content p.bytes = element.bytes ∧ element.bytes.length < 2 ^ 31) extents elements) :
    List.Forall₂ p.Holds extents elements := by
  cases elements with
  | nil =>
    cases located
    exact .nil
  | cons element rest =>
    cases located with
    | cons first others =>
      obtain ⟨order, inside, written, short⟩ := first
      exact .cons (Packet.held small element order (Nat.le_trans inside within) written short)
        (Packet.held_elements small within rest others)

end

/-- The messages among some elements, those within bundles apart. -/
def drafts (elements : List Packet) : List Draft :=
  elements.filterMap fun
    | .message d => some d
    | .bundle _ _ => none

end Packet

namespace PacketBuffer

variable {p q : PacketBuffer}

/-- What is found depends on nothing but the bytes. -/
theorem parseAt_same (same : q.bytes = p.bytes) {start stop length : Nat} {found : PacketBuffer}
    (parsed : p.parseAt start stop = .ok (found, length)) :
    ∃ other, q.parseAt start stop = .ok (other, length) ∧
      other.message.view = found.message.view ∧ other.bytes = p.bytes := by
  rcases p.parseAt_cases start stop with ⟨_, v, read, here, view, _⟩ | ⟨_, _, failed⟩
  · rw [here] at parsed
    cases parsed
    rcases q.parseAt_cases start stop with ⟨other, w, readOther, there, viewOther, kept⟩ | ⟨_, failed, _⟩
    · rw [same, read] at readOther
      cases readOther
      exact ⟨other, there, viewOther.trans view.symm, kept.trans same⟩
    · rw [same, read] at failed
      cases failed
  · rw [parsed] at failed
    cases failed

theorem unpackElements_held {extents : List Extent} {elements : List Packet}
    (held : List.Forall₂ p.Holds extents elements) (same : q.bytes = p.bytes) :
    List.Forall₂ (fun (d : Draft) found => d.ReadAs (PacketBuffer.message found)) (Packet.drafts elements)
      (q.unpackElements extents) := by
  induction held generalizing q with
  | nil => exact .nil
  | @cons e element extents elements here _ ih =>
    have marked : q.isBundleAt e.start = p.isBundleAt e.start := by rw [isBundleAt, same, isBundleAt]
    rw [unpackElements, marked]
    cases here with
    | message plain parsed readAs =>
      obtain ⟨other, parsedOther, view, kept⟩ := parseAt_same same parsed
      simp only [plain, parsedOther, Bool.false_eq_true, if_false]
      exact .cons (readAs.of_view view) (ih kept)
    | bundle isBundle _ _ _ =>
      rw [if_pos isBundle]
      exact ih same

/-- A packet is unpacked to the messages among the elements of its bundle. Bundles among them are left. -/
theorem unpack_held {length : Nat} {time : TimeTag} {elements : List Packet}
    (held : p.Holds ⟨0, length⟩ (.bundle time elements)) :
    List.Forall₂ (fun (d : Draft) found => d.ReadAs (PacketBuffer.message found)) (Packet.drafts elements)
      (p.unpack length) := by
  cases held with
  | bundle isBundle opened items inside =>
    rename_i cursor extents
    have found : cursor.elements p.bytes = extents := by
      rw [Bundle.Cursor.elements, items, List.filterMap_map]
      exact List.filterMap_some
    rw [unpack, if_pos isBundle, opened]
    dsimp only
    rw [found]
    exact unpackElements_held inside rfl

end PacketBuffer

theorem forall₂_flatMap_map {α β γ δ : Type} {R : α → β → Prop} {xs : List α} {ys : List β}
    (related : List.Forall₂ R xs ys) (zs : List γ) (f : β → γ → δ) :
    List.Forall₂ (fun (x : α × γ) z => ∃ y, R x.1 y ∧ z = f y x.2) (xs.flatMap fun x => zs.map (x, ·))
      (ys.flatMap fun y => zs.map (f y)) := by
  induction related with
  | nil => exact .nil
  | @cons x y xs ys here _ ih =>
    rw [List.flatMap_cons, List.flatMap_cons]
    refine List.rel_append ?_ ih
    rw [List.forall₂_map_left_iff, List.forall₂_map_right_iff, List.forall₂_same]
    exact fun z _ => ⟨y, here, rfl⟩

/-- A bundle of messages and bundles, to any depth, is written whole, and is read back as what it is wherever
its bytes are the first of a buffer. Handled as a packet it delivers its own messages in order to each of the
callbacks, and nothing of the bundles within it. -/
theorem Writer.rootBundle_read_back (w : Writer) (time : TimeTag) (elements : List Packet) :
    ∃ written, w.rootBundle? time elements = some written ∧
      (written.bytes.length < 2 ^ 31 → ∀ p : PacketBuffer, p.capacity < Bytes.limit →
        p.bytes.take written.bytes.length = written.bytes →
          p.Holds ⟨0, written.bytes.length⟩ (.bundle time elements) ∧
          ∀ {ι σ : Type} [DecidableEq ι] (behave : Behaviour ι σ) (d : Dispatcher ι σ), behave.Returns →
            List.Forall₂ (fun due call => call.callback = due.2 ∧ due.1.ReadAs call.message)
              ((Packet.drafts elements).flatMap fun draft => d.callbacks.map (draft, ·))
              (d.handle behave p written.bytes.length).1.calls) := by
  refine ⟨_, w.rootBundle_bytes time elements, fun short p small front => ?_⟩
  dsimp only at short front ⊢
  have within : (Packet.bundle time elements).bytes.length ≤ p.bytes.length := by
    have lengths := congrArg List.length front
    rw [List.length_take] at lengths
    omega
  have held : p.Holds ⟨0, (Packet.bundle time elements).bytes.length⟩ (.bundle time elements) :=
    Packet.held small _ (Nat.zero_le _) within front short
  refine ⟨held, fun behave d returns => ?_⟩
  have follows := Dispatcher.deliver_follows behave d.callbacks d p (p.unpack (Packet.bundle time elements).bytes.length)
  rw [Dispatcher.handle, follows.all (follows.returns returns)]
  refine (forall₂_flatMap_map (PacketBuffer.unpack_held held) d.callbacks _).imp ?_
  rintro ⟨draft, callback⟩ call ⟨found, readAs, rfl⟩
  exact ⟨rfl, readAs⟩

/-- A message, a bundle that holds a message and an empty bundle, and another message. -/
def Packet.nested : List Packet :=
  [.message .sample, .bundle ⟨0, 1⟩ [.message .sample, .bundle ⟨7, 0⟩ []], .message .sample]

theorem Writer.rootBundle_read_back_nested :
    ∃ written, (Writer.new .utf8).rootBundle? ⟨3, 4⟩ Packet.nested = some written ∧
      written.bytes.length < 2 ^ 31 ∧
      let p := ((PacketBuffer.new 256).load 0 written.bytes).1
      p.capacity < Bytes.limit ∧ p.bytes.take written.bytes.length = written.bytes ∧
        Behaviour.recording.Returns ∧
        p.Holds ⟨0, written.bytes.length⟩ (.bundle ⟨3, 4⟩ Packet.nested) ∧
        List.Forall₂ (fun due call => call.callback = due.2 ∧ due.1.ReadAs call.message)
          ([Draft.sample, Draft.sample].flatMap fun draft => [()].map (draft, ·))
          (Dispatcher.handle .recording ⟨[()], []⟩ p written.bytes.length).1.calls := by
  obtain ⟨written, whole, readBack⟩ := Writer.rootBundle_read_back (.new .utf8) ⟨3, 4⟩ Packet.nested
  have length : written.bytes.length = 128 := by
    rw [Writer.rootBundle_bytes] at whole
    cases whole
    decide +kernel
  have short : written.bytes.length < 2 ^ 31 := by rw [length]; decide
  have room : 0 + written.bytes.length ≤ (PacketBuffer.new 256).capacity := by
    rw [length, PacketBuffer.capacity_new]
    decide
  have small : ((PacketBuffer.new 256).load 0 written.bytes).1.capacity < Bytes.limit := by
    rw [PacketBuffer.load_capacity, PacketBuffer.capacity_new]
    decide
  have front := PacketBuffer.load_slice room
  rw [Nat.zero_add, List.take_zero, List.nil_append] at front
  obtain ⟨held, delivered⟩ := readBack short _ small front
  exact ⟨written, whole, short, small, front, Behaviour.recording_returns, held,
    delivered .recording ⟨[()], []⟩ Behaviour.recording_returns⟩

end OSC
