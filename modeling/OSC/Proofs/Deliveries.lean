import Mathlib.Data.List.Forall2
import OSC.Dispatcher
import OSC.Proofs.Cursors
import OSC.Proofs.Views

namespace OSC

namespace Message.View

/-- The message that begins and ends where an element of a bundle does. -/
def inElement? (bytes : Bytes) (e : Extent) : Option View := (read (bytes.take e.stop) e.start).toOption

/-- What is seen of the messages in a packet. A bundle among the elements of a bundle begins like no
message, so it need not be told apart. -/
def unpack (packet : Bytes) : List View :=
  if Bundle.isMarkedAt packet 0 then
    match Bundle.open? packet 0 packet.length with
    | .ok (_, cursor) => (cursor.elements packet).filterMap (inElement? packet)
    | .error _ => []
  else (read packet 0).toOption.toList

theorem inElement_take {bytes : Bytes} {e : Extent} {stop : Nat} (within : e.stop ≤ stop) :
    inElement? (bytes.take stop) e = inElement? bytes e := by
  rw [inElement?, List.take_take, Nat.min_eq_left within, inElement?]

/-- The elements of a bundle are those that its packet shows, and so are the messages in them. -/
theorem unpack_bundle {bytes : Bytes} {length : Nat} {time : TimeTag} {cursor : Bundle.Cursor}
    (opened : Bundle.open? bytes 0 length = .ok (time, cursor)) :
    unpack (bytes.take length) = (cursor.elements bytes).filterMap (inElement? bytes) := by
  have ends : cursor.stop ≤ length := by
    have := (Bundle.stop_of_open opened).2
    omega
  have same : cursor.elements (bytes.take length) = cursor.elements bytes := by
    rw [Bundle.Cursor.elements, Bundle.Cursor.items_take ends, Bundle.Cursor.elements]
  rw [unpack, if_pos (Bundle.marked_of_open opened), Bundle.open_take, opened, ← same]
  apply List.filterMap_congr
  intro e member
  have within := (Bundle.Cursor.elements_within member).2
  exact inElement_take (Nat.le_trans within ends)

/-- Where a bundle begins no message is found, however much of it is there. -/
theorem read_of_marked {bytes : Bytes} {start : Nat} (marked : Bundle.isMarkedAt bytes start) (stop : Nat) :
    (read (bytes.take stop) start).toOption = none := by
  cases found : read (bytes.take stop) start with
  | error e => rfl
  | ok v =>
    have slash := slash_of_read found
    have inside : start < stop := by
      have bound := (List.getElem?_eq_some_iff.mp slash).1
      rw [List.length_take] at bound
      omega
    rw [List.getElem?_take_of_lt inside, Bundle.hash_of_marked marked] at slash
    cases slash

end Message.View

namespace PacketBuffer

/-- Where a message is found no bundle begins. -/
theorem not_bundleAt_of_parseAt {p found : PacketBuffer} {start stop length : Nat}
    (parsed : p.parseAt start stop = .ok (found, length)) : p.isBundleAt start = false := by
  by_contra marked
  have none := Message.View.read_of_marked (Bool.of_not_eq_false marked) stop
  rcases p.parseAt_cases start stop with ⟨_, _, read, _⟩ | ⟨_, _, failed⟩
  · rw [read] at none
    cases none
  · rw [parsed] at failed
    cases failed

theorem unpackElements_bytes (p : PacketBuffer) (elements : List Extent) :
    ∀ q ∈ p.unpackElements elements, q.bytes = p.bytes := by
  induction elements generalizing p with
  | nil => simp [unpackElements]
  | cons e rest ih =>
    unfold unpackElements
    split
    · exact ih p
    · rcases p.parseAt_cases e.start e.stop with ⟨found, v, _, parsed, _, same⟩ | ⟨error, _, parsed⟩
      · rw [parsed]
        intro q member
        rcases List.mem_cons.mp member with rfl | later
        · exact same
        · exact (ih found q later).trans same
      · rw [parsed]
        exact ih p

/-- Whatever the buffer held before, the messages found in it are those that its bytes show. -/
theorem unpackElements_view (p : PacketBuffer) (elements : List Extent) :
    (p.unpackElements elements).map (·.message.view) =
      elements.filterMap (Message.View.inElement? p.bytes) := by
  induction elements generalizing p with
  | nil => rfl
  | cons e rest ih =>
    unfold unpackElements
    split
    · rename_i marked
      have here : Message.View.inElement? p.bytes e = none := Message.View.read_of_marked marked e.stop
      rw [List.filterMap_cons_none here, ih]
    · rcases p.parseAt_cases e.start e.stop with ⟨found, v, read, parsed, view, same⟩ | ⟨error, read, parsed⟩
      · have here : Message.View.inElement? p.bytes e = some v := by rw [Message.View.inElement?, read]; rfl
        rw [List.filterMap_cons_some here, parsed, List.map_cons, view, ih, same]
      · have here : Message.View.inElement? p.bytes e = none := by rw [Message.View.inElement?, read]; rfl
        rw [List.filterMap_cons_none here, parsed, ih]

theorem unpack_bytes (p : PacketBuffer) (length : Nat) : ∀ q ∈ p.unpack length, q.bytes = p.bytes := by
  unfold unpack
  split
  · split
    · exact p.unpackElements_bytes _
    · simp
  · rcases p.parseAt_cases 0 length with ⟨found, v, _, parsed, _, same⟩ | ⟨error, _, parsed⟩
    · rw [parse, parsed]
      simpa using same
    · rw [parse, parsed]
      simp

/-- A packet is unpacked by its own bytes alone, although the marker of a bundle is looked for in the
whole buffer: a packet that ends within the marker is no message either. -/
theorem unpack_view (p : PacketBuffer) (length : Nat) :
    (p.unpack length).map (·.message.view) = Message.View.unpack (p.bytes.take length) := by
  unfold unpack
  by_cases whole : p.isBundleAt 0
  · rw [if_pos whole]
    cases opened : Bundle.open? p.bytes 0 length with
    | error fault =>
      by_cases part : Bundle.isMarkedAt (p.bytes.take length) 0
      · rw [Message.View.unpack, if_pos part, Bundle.open_take, opened]
        rfl
      · rw [Message.View.unpack, if_neg part, Message.View.read_of_marked whole length]
        rfl
    | ok header => rw [Message.View.unpack_bundle opened, unpackElements_view]
  · have part : ¬ Bundle.isMarkedAt (p.bytes.take length) 0 := fun marked => whole (Bundle.marked_of_take marked)
    rw [if_neg whole, Message.View.unpack, if_neg part, parse]
    rcases p.parseAt_cases 0 length with ⟨found, v, read, parsed, view, _⟩ | ⟨error, read, parsed⟩
    · rw [parsed, read, List.map_cons, view]
      rfl
    · rw [parsed, read]
      rfl

end PacketBuffer

/-- Callbacks that only look at their messages. What they remember of them is their own affair. -/
def Behaviour.Observes {ι σ : Type} (behave : Behaviour ι σ) : Prop :=
  ∀ memory callback m, (behave memory callback m).2 = []

/-- A callback that remembers its messages and does nothing else. -/
def Behaviour.recording : Behaviour Unit (List Message) := fun memory _ m => (memory ++ [m], [])

theorem Behaviour.recording_observes : recording.Observes := fun _ _ _ => rfl

def Call.seen {ι : Type} (call : Call ι) : ι × Message.View := (call.callback, call.message.view)

structure Call.Alike {ι : Type} (call other : Call ι) : Prop where
  callback : call.callback = other.callback
  message : call.message.Alike other.message

theorem forall₂_of_map_eq {α β γ : Type} {f : α → γ} {g : β → γ} {xs : List α} {ys : List β}
    (same : xs.map f = ys.map g) : List.Forall₂ (fun x y => f x = g y) xs ys := by
  have images : List.Forall₂ Eq (xs.map f) (ys.map g) := by rwa [List.forall₂_eq_eq_eq]
  rwa [List.forall₂_map_left_iff, List.forall₂_map_right_iff] at images

theorem Call.alike_of_seen {ι : Type} {calls others : List (Call ι)}
    (same : calls.map Call.seen = others.map Call.seen) : List.Forall₂ Call.Alike calls others :=
  (forall₂_of_map_eq same).imp fun _ _ equal =>
    ⟨congrArg Prod.fst equal, .of_view (congrArg Prod.snd equal)⟩

namespace Dispatcher

variable {ι σ : Type} [DecidableEq ι] {behave : Behaviour ι σ}

/-- Observers are all called, one after another, and stay registered. -/
theorem invoke_observing (observing : behave.Observes) (m : Message) (d : Dispatcher ι σ) (callbacks : List ι) :
    (invoke behave m d callbacks).calls = callbacks.map (⟨·, m⟩) ∧
      (invoke behave m d callbacks).failed = false ∧
      (invoke behave m d callbacks).dispatcher.callbacks = d.callbacks := by
  induction callbacks generalizing d with
  | nil => exact ⟨rfl, rfl, rfl⟩
  | cons callback rest ih =>
    have quiet := observing d.memory callback m
    obtain ⟨calls, failed, kept⟩ := ih { d with memory := (behave d.memory callback m).1 }
    simp only [invoke, quiet, perform, calls, failed, kept, List.map_cons, and_self]

theorem deliver_observing (observing : behave.Observes) (callbacks : List ι) (d : Dispatcher ι σ)
    (p : PacketBuffer) (founds : List PacketBuffer) :
    (deliver behave callbacks d p founds).1.calls =
        founds.flatMap (fun found => callbacks.map (⟨·, found.message⟩)) ∧
      (deliver behave callbacks d p founds).1.failed = false ∧
      (deliver behave callbacks d p founds).1.dispatcher.callbacks = d.callbacks := by
  induction founds generalizing d p with
  | nil => exact ⟨rfl, rfl, rfl⟩
  | cons found rest ih =>
    obtain ⟨callsNow, failedNow, keptNow⟩ := invoke_observing observing found.message d callbacks
    obtain ⟨calls, failed, kept⟩ := ih (invoke behave found.message d callbacks).dispatcher found
    simp only [deliver, callsNow, failedNow, calls, failed, kept, keptNow, List.flatMap_cons, and_self,
      Bool.false_eq_true, if_false]

theorem deliver_bytes (callbacks : List ι) (d : Dispatcher ι σ) (p : PacketBuffer) (founds : List PacketBuffer)
    (same : ∀ q ∈ founds, q.bytes = p.bytes) : (deliver behave callbacks d p founds).2.bytes = p.bytes := by
  induction founds generalizing d p with
  | nil => rfl
  | cons found rest ih =>
    have here : found.bytes = p.bytes := same found (List.mem_cons_self ..)
    have later : ∀ q ∈ rest, q.bytes = found.bytes := fun q member =>
      (same q (List.mem_cons_of_mem _ member)).trans here.symm
    rw [deliver]
    by_cases failed : (invoke behave found.message d callbacks).failed
    · simp only [failed, if_true, here]
    · simp only [failed, Bool.false_eq_true, if_false,
        ih (invoke behave found.message d callbacks).dispatcher found later, here]

/-- What observers see of a packet depends on nothing but its bytes. -/
theorem handle_seen (observing : behave.Observes) (d : Dispatcher ι σ) (p : PacketBuffer) (length : Nat) :
    (d.handle behave p length).1.calls.map Call.seen =
      (Message.View.unpack (p.bytes.take length)).flatMap fun v => d.callbacks.map (·, v) := by
  have calls := (deliver_observing observing d.callbacks d p (p.unpack length)).1
  rw [handle, calls, ← p.unpack_view, List.map_flatMap, List.flatMap_map]
  simp only [List.map_map]
  rfl

theorem handle_bytes (d : Dispatcher ι σ) (p : PacketBuffer) (length : Nat) :
    (d.handle behave p length).2.bytes = p.bytes :=
  deliver_bytes _ _ _ _ (p.unpack_bytes length)

end Dispatcher

end OSC
