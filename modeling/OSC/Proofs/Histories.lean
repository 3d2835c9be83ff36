import OSC.Proofs.Deliveries
import OSC.Server

namespace OSC

variable {ι σ : Type} [DecidableEq ι] {behave : Behaviour ι σ}

/-- The calls for a datagram that is the first one in a new buffer of some capacity. -/
def Dispatcher.callsAlone (behave : Behaviour ι σ) (d : Dispatcher ι σ) (capacity : Nat) (datagram : Bytes) :
    List (Call ι) :=
  let (loaded, length) := (PacketBuffer.new capacity).load 0 datagram
  (d.handle behave loaded length).1.calls

theorem Dispatcher.callsAlone_seen (observing : behave.Observes) (d : Dispatcher ι σ) (capacity : Nat)
    (datagram : Bytes) :
    (d.callsAlone behave capacity datagram).map Call.seen =
      (Message.View.unpack (datagram.take (PacketBuffer.new capacity).capacity)).flatMap fun v =>
        d.callbacks.map (·, v) := by
  rw [callsAlone, handle_seen observing, PacketBuffer.load_front]

namespace Server

def step (behave : Behaviour ι σ) (s : Server ι σ) (datagram : Bytes) : Server ι σ × List (Call ι) :=
  match s.listener with
  | .absent | .failed => (s, [])
  | .running buffer =>
    let (loaded, length) := buffer.load 0 datagram
    if length = 0 then (s, [])
    else
      let (outcome, buffer) := s.dispatcher.handle behave loaded length
      ({ s with
        dispatcher := outcome.dispatcher
        listener := if outcome.failed then .failed else .running buffer }, outcome.calls)

theorem receive_cons (s : Server ι σ) (datagram : Bytes) (rest : List Bytes) :
    s.receive behave (datagram :: rest) =
      (((s.step behave datagram).1.receive behave rest).1,
        (s.step behave datagram).2 ++ ((s.step behave datagram).1.receive behave rest).2) := by
  have idle (stopped : ∀ p, s.listener ≠ .running p) : s.receive behave rest = (s, []) := by
    cases rest with
    | nil => rfl
    | cons d rest =>
      cases state : s.listener with
      | absent | failed => simp only [receive, state]
      | running p => exact absurd state (stopped p)
  cases state : s.listener with
  | absent | failed => simp only [receive, step, state, idle (by simp [state]), List.append_nil]
  | running p =>
    by_cases empty : (p.load 0 datagram).2 = 0
    · simp only [receive, step, state, empty, if_true, List.nil_append]
    · simp only [receive, step, state, empty, if_false]

/-- After one datagram the server listens on, with the same observers and a buffer of the same size, and
they have seen what the datagram shows. -/
theorem step_observing (observing : behave.Observes) {s : Server ι σ} {p : PacketBuffer}
    (running : s.listener = .running p) (datagram : Bytes) :
    (∃ q, (s.step behave datagram).1.listener = .running q ∧ q.capacity = p.capacity) ∧
      (s.step behave datagram).1.dispatcher.callbacks = s.dispatcher.callbacks ∧
      (s.step behave datagram).2.map Call.seen =
        (Message.View.unpack (datagram.take p.capacity)).flatMap fun v => s.dispatcher.callbacks.map (·, v) := by
  by_cases empty : (p.load 0 datagram).2 = 0
  · have nothing : datagram.take p.capacity = [] := by
      rwa [PacketBuffer.load_length, List.length_eq_zero_iff] at empty
    have passed : s.step behave datagram = (s, []) := by simp only [step, running, empty, if_true]
    rw [passed, nothing]
    exact ⟨⟨p, running, rfl⟩, rfl, rfl⟩
  · obtain ⟨_, failed, kept⟩ := Dispatcher.deliver_observing observing s.dispatcher.callbacks s.dispatcher
      (p.load 0 datagram).1 ((p.load 0 datagram).1.unpack (p.load 0 datagram).2)
    have bytes : (s.dispatcher.handle behave (p.load 0 datagram).1 (p.load 0 datagram).2).2.bytes = _ :=
      Dispatcher.handle_bytes s.dispatcher _ _
    have seen := Dispatcher.handle_seen observing s.dispatcher (p.load 0 datagram).1 (p.load 0 datagram).2
    rw [PacketBuffer.load_front] at seen
    unfold Dispatcher.handle at seen bytes
    simp only [step, running, empty, if_false, Dispatcher.handle, failed, kept, seen, Bool.false_eq_true]
    refine ⟨⟨_, rfl, ?_⟩, trivial, trivial⟩
    rw [PacketBuffer.capacity, bytes]
    exact p.load_capacity 0 datagram

/-- What observers see of a run of datagrams is what they see of each. -/
theorem receive_seen (observing : behave.Observes) {s : Server ι σ} {p : PacketBuffer}
    (running : s.listener = .running p) (datagrams : List Bytes) :
    (s.receive behave datagrams).2.map Call.seen = datagrams.flatMap fun datagram =>
      (Message.View.unpack (datagram.take p.capacity)).flatMap fun v => s.dispatcher.callbacks.map (·, v) := by
  induction datagrams generalizing s p with
  | nil => rfl
  | cons datagram rest ih =>
    obtain ⟨⟨q, listening, size⟩, kept, seen⟩ := step_observing observing running datagram
    rw [receive_cons, List.map_append, seen, ih listening, kept, size, List.flatMap_cons]

/-- Callbacks that only observe cannot tell what a server took in before. Their calls for some datagrams
are those for each datagram alone in a new buffer of the same capacity, whatever the server's buffer held. -/
theorem receive_alike_alone (observing : behave.Observes) {s : Server ι σ} {p : PacketBuffer}
    (running : s.listener = .running p) {capacity : Nat}
    (size : p.capacity = (PacketBuffer.new capacity).capacity) (datagrams : List Bytes) :
    List.Forall₂ Call.Alike (s.receive behave datagrams).2
      (datagrams.flatMap (s.dispatcher.callsAlone behave capacity)) := by
  apply Call.alike_of_seen
  rw [receive_seen observing running, List.map_flatMap, size]
  simp only [Dispatcher.callsAlone_seen observing]

def listening : Server Unit (List Message) := ⟨256, 0, ⟨[()], []⟩, .running (.new 256)⟩

/-- A message with a number, one whose number is missing, nothing, and a bundle that is not all there. -/
def arrivals : List Bytes :=
  [[47, 97, 0, 0, 44, 105, 0, 0, 0, 0, 0, 7], [47, 98, 0, 0, 44, 105, 0, 0], [], Bundle.marker]

theorem receive_arrivals_alike_alone :
    Behaviour.recording.Observes ∧ listening.listener = .running (.new 256) ∧
      List.Forall₂ Call.Alike (listening.receive .recording arrivals).2
        (arrivals.flatMap (listening.dispatcher.callsAlone .recording 256)) :=
  ⟨Behaviour.recording_observes, rfl, receive_alike_alone Behaviour.recording_observes rfl rfl arrivals⟩

end Server

end OSC
