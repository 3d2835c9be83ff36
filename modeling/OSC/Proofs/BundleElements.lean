import OSC.Proofs.Deliveries
import OSC.Proofs.Translation

namespace OSC

def Extent.content (e : Extent) (bytes : Bytes) : Bytes := (bytes.take e.stop).drop e.start

theorem toOption_map {α β ε : Type} (x : Except ε α) (f : α → β) : (x.map f).toOption = x.toOption.map f := by
  cases x <;> rfl

/-- The message that some bytes are by themselves, at the front of a new buffer. -/
def Message.alone? (capacity : Nat) (content : Bytes) : Option Message :=
  match ((PacketBuffer.new capacity).load 0 content).1.parse content.length with
  | .ok (found, _) => some found.message
  | .error _ => none

theorem Message.alone_view {capacity : Nat} {content : Bytes}
    (room : content.length ≤ (PacketBuffer.new capacity).capacity) :
    (alone? capacity content).map view = (View.read content 0).toOption := by
  have loaded : ((PacketBuffer.new capacity).load 0 content).1.bytes.take content.length = content := by
    have front := PacketBuffer.load_front (PacketBuffer.new capacity) content
    rwa [PacketBuffer.load_length, List.take_of_length_le room] at front
  unfold alone?
  rcases ((PacketBuffer.new capacity).load 0 content).1.parseAt_cases 0 content.length with
    ⟨found, v, read, parsed, view, _⟩ | ⟨e, read, parsed⟩
  · rw [loaded] at read
    rw [PacketBuffer.parse, parsed, read, Option.map_some, view]
    rfl
  · rw [loaded] at read
    rw [PacketBuffer.parse, parsed, read]
    rfl

theorem Message.read_of_alone {capacity : Nat} {content : Bytes} {m : Message}
    (room : content.length ≤ (PacketBuffer.new capacity).capacity) (found : alone? capacity content = some m) :
    View.read content 0 = .ok m.view := by
  have shown := alone_view room
  rw [found, Option.map_some] at shown
  cases here : View.read content 0 with
  | error _ => rw [here] at shown; cases shown
  | ok v => rw [here] at shown; cases shown; rfl

/-- A message is another with `ahead` bytes put in front of it: the offsets grow by these, and so do the
places that errors tell, and nothing else changes. -/
structure Message.Moved (ahead : Nat) (alone m : Message) : Prop where
  address : m.address = alone.address
  count : m.arguments.count = alone.arguments.count
  tags : m.arguments.table.tags = alone.arguments.table.tags
  offsets : m.arguments.table.offsets = alone.arguments.table.offsets.map (ahead + ·)
  get : ∀ index, m.arguments.get index = (alone.arguments.get index).mapError (Error.moved ahead)

theorem Message.Moved.of_view {alone m : Message} {bytes : Bytes} {start : Nat} (within : start ≤ bytes.length)
    (read : View.read (bytes.drop start) 0 = .ok alone.view) (view : alone.view.moved start bytes = m.view) :
    Message.Moved start alone m := by
  have tags : m.arguments.table.tags = alone.arguments.table.tags := (congrArg View.tags view).symm
  exact {
    address := (congrArg View.address view).symm
    count := congrArg List.length tags
    tags
    offsets := (congrArg View.offsets view).symm
    get := fun index => by rw [get_view, get_view, ← view, View.get_moved within read] }

section Element

variable {bytes : Bytes} {e : Extent} {capacity : Nat}

theorem Extent.length_content (within : e.stop ≤ bytes.length) :
    (e.content bytes).length = e.stop - e.start := by
  rw [content, List.length_drop, List.length_take_of_le within]

theorem Message.inElement_eq (order : e.start ≤ e.stop) (within : e.stop ≤ bytes.length)
    (small : bytes.length < Bytes.limit) (room : e.stop - e.start ≤ (PacketBuffer.new capacity).capacity) :
    View.inElement? bytes e =
      (alone? capacity (e.content bytes)).map fun m => m.view.moved e.start (bytes.take e.stop) := by
  have length : (bytes.take e.stop).length = e.stop := List.length_take_of_le within
  have before : e.start ≤ (bytes.take e.stop).length := by omega
  have short : (bytes.take e.stop).length < Bytes.limit := by omega
  have moved : View.read (bytes.take e.stop) e.start =
      (View.read (e.content bytes) 0).map (·.moved e.start (bytes.take e.stop)) :=
    View.read_drop before short 0
  have alone : (alone? capacity (e.content bytes)).map view = (View.read (e.content bytes) 0).toOption :=
    alone_view (by rwa [Extent.length_content within])
  rw [View.inElement?, moved, toOption_map, ← alone, Option.map_map]
  rfl

theorem Message.moved_of_alone {alone m : Message} (order : e.start ≤ e.stop) (within : e.stop ≤ bytes.length)
    (room : e.stop - e.start ≤ (PacketBuffer.new capacity).capacity)
    (found : alone? capacity (e.content bytes) = some alone)
    (view : alone.view.moved e.start (bytes.take e.stop) = m.view) :
    Message.Moved e.start alone m ∧ m.arguments.bytes.length = e.stop := by
  have length : (bytes.take e.stop).length = e.stop := List.length_take_of_le within
  have read : View.read (e.content bytes) 0 = .ok alone.view :=
    read_of_alone (by rwa [Extent.length_content within]) found
  refine ⟨.of_view (by omega) read view, ?_⟩
  have visible : m.arguments.bytes = bytes.take e.stop := (congrArg View.visible view).symm
  rw [visible, length]

end Element

namespace Dispatcher

variable {ι σ : Type} [DecidableEq ι] {behave : Behaviour ι σ}

/-- What the messages in some elements are by themselves, in a buffer of some capacity, for each of some
callbacks, beside the element that each comes from. -/
def callsInElements (callbacks : List ι) (capacity : Nat) (bytes : Bytes) (elements : List Extent) :
    List (Extent × Call ι) :=
  elements.flatMap fun e =>
    (Message.alone? capacity (e.content bytes)).toList.flatMap fun m =>
      callbacks.map fun callback => (e, ⟨callback, m⟩)

omit [DecidableEq ι] in
theorem mem_callsInElements {callbacks : List ι} {capacity : Nat} {bytes : Bytes} {elements : List Extent}
    {e : Extent} {call : Call ι} (member : (e, call) ∈ callsInElements callbacks capacity bytes elements) :
    e ∈ elements ∧ Message.alone? capacity (e.content bytes) = some call.message := by
  simp only [callsInElements, List.mem_flatMap, List.mem_map, Option.mem_toList, Prod.mk.injEq] at member
  obtain ⟨_, inside, m, found, callback, _, rfl, rfl⟩ := member
  exact ⟨inside, found⟩

/-- The messages in a bundle reach observers as each would by itself, but for its place. What is no message
by itself reaches nobody and keeps nothing else from being delivered. A fault among the elements ends the
bundle, and what was before it is delivered. -/
theorem handle_bundle (observing : behave.Observes) (d : Dispatcher ι σ) {p : PacketBuffer} {length : Nat}
    (small : p.capacity < Bytes.limit) {time : TimeTag} {cursor : Bundle.Cursor}
    (opened : Bundle.open? p.bytes 0 length = .ok (time, cursor)) {capacity : Nat}
    (room : ∀ e ∈ cursor.elements p.bytes, e.stop - e.start ≤ (PacketBuffer.new capacity).capacity) :
    (∃ fault : Option Bundle.Fault,
      cursor.items p.bytes = (cursor.elements p.bytes).map .ok ++ fault.toList.map .error) ∧
    List.Forall₂
      (fun alone call => call.callback = alone.2.callback ∧
        Message.Moved alone.1.start alone.2.message call.message ∧
        call.message.arguments.bytes.length = alone.1.stop)
      (callsInElements d.callbacks capacity p.bytes (cursor.elements p.bytes))
      (d.handle behave p length).1.calls := by
  refine ⟨Bundle.Cursor.items_eq cursor, ?_⟩
  have inside : ∀ e ∈ cursor.elements p.bytes, e.start ≤ e.stop ∧ e.stop ≤ p.bytes.length := by
    intro e member
    have := Bundle.Cursor.elements_within member
    have := (Bundle.stop_of_open opened).2
    omega
  have same : (callsInElements d.callbacks capacity p.bytes (cursor.elements p.bytes)).map (fun alone =>
        (alone.2.callback, alone.2.message.view.moved alone.1.start (p.bytes.take alone.1.stop))) =
      (d.handle behave p length).1.calls.map Call.seen := by
    rw [handle_seen observing, Message.View.unpack_bundle opened, List.filterMap_eq_flatMap_toList,
      List.flatMap_assoc, callsInElements, List.map_flatMap]
    apply List.flatMap_congr
    intro e member
    obtain ⟨order, within⟩ := inside e member
    rw [Message.inElement_eq order within small (room e member)]
    cases Message.alone? capacity (e.content p.bytes) with
    | none => rfl
    | some m => simp
  have found : ∀ alone ∈ callsInElements d.callbacks capacity p.bytes (cursor.elements p.bytes),
      alone.1 ∈ cursor.elements p.bytes ∧
        Message.alone? capacity (alone.1.content p.bytes) = some alone.2.message :=
    fun _ member => mem_callsInElements member
  refine (List.forall₂_and_left _ _ |>.mpr ⟨found, forall₂_of_map_eq same⟩).imp ?_
  rintro ⟨e, alone⟩ call ⟨⟨member, isAlone⟩, seen⟩
  obtain ⟨order, within⟩ := inside e member
  exact ⟨(congrArg Prod.fst seen).symm,
    Message.moved_of_alone order within (room e member) isAlone (congrArg Prod.snd seen)⟩

/-- A message in a bundle, with less behind it than the size of another element. -/
def brokenBundle : Bytes :=
  Bundle.marker ++ [0, 0, 0, 0, 0, 0, 0, 1] ++ [0, 0, 0, 8] ++ [47, 97, 0, 0, 44, 0, 0, 0] ++ [0, 0, 1]

def holdingBroken : PacketBuffer := ((PacketBuffer.new 256).load 0 brokenBundle).1

theorem handle_brokenBundle :
    Behaviour.recording.Observes ∧ holdingBroken.capacity < Bytes.limit ∧
      ∃ time cursor, Bundle.open? holdingBroken.bytes 0 31 = .ok (time, cursor) ∧
        (∀ e ∈ cursor.elements holdingBroken.bytes, e.stop - e.start ≤ (PacketBuffer.new 256).capacity) ∧
        (∃ fault : Option Bundle.Fault,
          cursor.items holdingBroken.bytes = (cursor.elements holdingBroken.bytes).map .ok ++ fault.toList.map .error) ∧
        List.Forall₂
          (fun alone call => call.callback = alone.2.callback ∧
            Message.Moved alone.1.start alone.2.message call.message ∧
            call.message.arguments.bytes.length = alone.1.stop)
          (callsInElements [()] 256 holdingBroken.bytes (cursor.elements holdingBroken.bytes))
          (handle .recording ⟨[()], []⟩ holdingBroken 31).1.calls := by
  have capacity : (PacketBuffer.new 256).capacity = 256 := PacketBuffer.capacity_new 256
  have small : holdingBroken.capacity < Bytes.limit := by
    rw [holdingBroken, PacketBuffer.load_capacity, capacity]
    decide
  have front : holdingBroken.bytes.take 31 = brokenBundle := by
    rw [holdingBroken, PacketBuffer.load_bytes (by rw [capacity]; decide)]
    rfl
  have opened : Bundle.open? holdingBroken.bytes 0 31 = .ok (⟨0, 1⟩, ⟨16, 31⟩) := by
    rw [← Bundle.open_take, front]
    rfl
  have room : ∀ e ∈ Bundle.Cursor.elements holdingBroken.bytes ⟨16, 31⟩,
      e.stop - e.start ≤ (PacketBuffer.new 256).capacity := by
    intro e member
    have within : e.stop ≤ 31 := (Bundle.Cursor.elements_within member).2
    rw [capacity]
    omega
  exact ⟨Behaviour.recording_observes, small, _, _, opened, room,
    handle_bundle Behaviour.recording_observes ⟨[()], []⟩ small opened room⟩

end Dispatcher

end OSC
