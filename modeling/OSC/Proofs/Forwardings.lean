import OSC.Forwarder
import OSC.Proofs.Arrivals

namespace OSC

namespace Message

/-- Whether all arguments of a message can be decoded. -/
def isWhole (m : Message) : Bool := m.arguments.toList.all Except.isOk

/-- What a new writer makes of a message. -/
def packet (m : Message) : Bytes := ((Writer.new .ascii).message m).1.bytes

theorem isWhole_of_values {m : Message} {values : List Argument}
    (all : m.arguments.toList = values.map .ok) : m.isWhole = true := by
  rw [isWhole, all, List.all_eq_true]
  intro result member
  obtain ⟨a, _, rfl⟩ := List.mem_map.mp member
  rfl

theorem not_isWhole_of_error {m : Message} {values : List Argument} {e : Error}
    {rest : List (Except Error Argument)} (cut : m.arguments.toList = values.map .ok ++ .error e :: rest) :
    m.isWhole = false := by
  rw [isWhole, cut, List.all_append, List.all_cons]
  exact Bool.and_false _

theorem values_of_isWhole {m : Message} (whole : m.isWhole = true) :
    ∃ values : List Argument, m.arguments.toList = values.map .ok := by
  rcases Writer.arguments_cases m.arguments.toList with all | ⟨values, e, rest, cut⟩
  · exact all
  · rw [not_isWhole_of_error cut] at whole
    cases whole

end Message

theorem Arguments.get_of_error {arguments : Arguments} {values : List Argument} {e : Error}
    {rest : List (Except Error Argument)} (cut : arguments.toList = values.map .ok ++ .error e :: rest) :
    values.length < arguments.count ∧ arguments.get values.length = .error e ∧
      ∀ earlier < values.length, ∃ a, arguments.get earlier = .ok a := by
  have place : values.length = (values.map (Except.ok (ε := Error))).length := by rw [List.length_map]
  have recorded : values.length < arguments.count := by
    have lengths := congrArg List.length cut
    rw [toList, List.length_map, List.length_range, List.length_append, ← place, List.length_cons] at lengths
    omega
  have each (index : Nat) (inside : index < arguments.count) :
      some (arguments.get index) = (values.map Except.ok ++ .error e :: rest)[index]? := by
    rw [← cut, toList, List.getElem?_map, List.getElem?_range inside, Option.map_some]
  refine ⟨recorded, ?_, fun earlier before => ⟨values[earlier], ?_⟩⟩
  · have here := each values.length recorded
    rw [List.getElem?_append_right (by omega), ← place, Nat.sub_self, List.getElem?_cons_zero] at here
    exact Option.some.inj here
  · have here := each earlier (by omega)
    rw [List.getElem?_append_left (by omega), List.getElem?_map, List.getElem?_eq_getElem before] at here
    exact Option.some.inj here

/-- The first argument that cannot be decoded is the one at `index`. -/
structure Message.FirstError (m : Message) (index : Nat) (e : Error) : Prop where
  recorded : index < m.arguments.count
  error : m.arguments.get index = .error e
  first : ∀ earlier < index, ∃ a, m.arguments.get earlier = .ok a

/-- A message that says the same, but for characters outside ASCII. -/
structure Message.SentAs (m again : Message) : Prop where
  address : again.address = m.address
  tags : again.arguments.table.tags = m.arguments.table.tags
  get : ∀ index, again.arguments.get index = (m.arguments.get index).map Argument.asSent

/-- The packet of a message that was found anywhere is parsed as that message. -/
theorem PacketBuffer.parse_packet {p found : PacketBuffer} (small : p.capacity < Bytes.limit)
    (shows : p.Shows found) (whole : found.message.isWhole = true) {r : PacketBuffer}
    (smallNext : r.capacity < Bytes.limit) (room : found.message.packet.length ≤ r.capacity) :
    ∃ again width, (r.load 0 found.message.packet).1.parse found.message.packet.length = .ok (again, width) ∧
      found.message.SentAs again.message := by
  obtain ⟨q, start, stop, length, same, parsed⟩ := shows
  have smallHere : q.capacity < Bytes.limit := by rwa [capacity, same]
  obtain ⟨values, all⟩ := Message.values_of_isWhole whole
  obtain ⟨d, bytes, address, _, tags, _, each⟩ :=
    draft_of_message smallHere parsed (Writer.message_values all (.new .ascii))
  have packet : found.message.packet = d.bytes := by
    rw [← bytes, Message.packet, Writer.message_values all]
  have count : d.entries.length = found.arguments.count := by
    have lengths := congrArg List.length tags
    rwa [Draft.tags, List.length_map] at lengths
  rw [packet] at room ⊢
  obtain ⟨again, parsedAgain, addressAgain, tagsAgain, eachAgain⟩ :=
    parse_load_bytes d (count ▸ found.table.length_tags) smallNext room
  refine ⟨again, _, parsedAgain, addressAgain.trans address, tagsAgain.trans tags, fun index => ?_⟩
  have countAgain : again.arguments.count = found.arguments.count := congrArg List.length (tagsAgain.trans tags)
  by_cases recorded : index < d.entries.length
  · exact (eachAgain index recorded).trans (each index recorded).symm
  · have past : found.arguments.count ≤ index := by omega
    have none := Arguments.get_past past
    have noneAgain := Arguments.get_past (countAgain ▸ past : again.arguments.count ≤ index)
    rw [message, message, noneAgain, none, countAgain]
    rfl

namespace Forwarder

/-- A message is queued as a new writer writes it, or not at all, whatever the writer held before. -/
theorem forward_cases (f : Forwarder) (running : f.isRunning = true) (m : Message) :
    (m.isWhole = true ∧
      f.forward m = ({ f with writer := f.writer.reset, queued := f.queued ++ [m.packet] }, .ok ())) ∨
    (m.isWhole = false ∧ ∃ index e writer, m.FirstError index e ∧
      f.forward m = ({ f with writer }, .error e)) := by
  rcases Writer.arguments_cases m.arguments.toList with ⟨values, all⟩ | ⟨values, e, rest, cut⟩
  · left
    have packet : m.packet =
        paddedText m.address ++ tagString m.arguments.table.tags ++ values.flatMap Argument.encode := by
      rw [Message.packet, Writer.message_values all]
    refine ⟨Message.isWhole_of_values all, ?_⟩
    rw [forward, Writer.message_values all, packet]
    simp only [Writer.take, running, if_true]
    rfl
  · right
    obtain ⟨recorded, error, first⟩ := Arguments.get_of_error cut
    refine ⟨Message.not_isWhole_of_error cut, values.length, e, (f.writer.message m).1, ?_, ?_⟩
    · exact ⟨recorded, error, first⟩
    · rw [forward, Writer.message_error cut]

/-- Forwards messages one after another. -/
def forwardAll (f : Forwarder) (messages : List Message) : Forwarder :=
  messages.foldl (fun f m => (f.forward m).1) f

theorem forwardAll_append (f : Forwarder) (messages later : List Message) :
    f.forwardAll (messages ++ later) = (f.forwardAll messages).forwardAll later :=
  List.foldl_append ..

/-- The queue grows by a packet for each whole message, in the order of the calls. -/
theorem forwardAll_queued (f : Forwarder) (running : f.isRunning = true) (messages : List Message) :
    (f.forwardAll messages).isRunning = true ∧
      (f.forwardAll messages).queued = f.queued ++ (messages.filter Message.isWhole).map Message.packet := by
  induction messages generalizing f with
  | nil => exact ⟨running, (List.append_nil _).symm⟩
  | cons m rest ih =>
    have next : f.forwardAll (m :: rest) = (f.forward m).1.forwardAll rest := rfl
    rcases f.forward_cases running m with ⟨whole, forwarded⟩ | ⟨broken, index, e, writer, _, refused⟩
    · obtain ⟨still, queued⟩ := ih (f.forward m).1 (by rw [forwarded]; exact running)
      refine ⟨next ▸ still, ?_⟩
      rw [next, queued, forwarded, List.filter_cons_of_pos whole, List.map_cons, List.append_assoc]
      rfl
    · obtain ⟨still, queued⟩ := ih (f.forward m).1 (by rw [refused]; exact running)
      refine ⟨next ▸ still, ?_⟩
      rw [next, queued, refused, List.filter_cons_of_neg (by rw [broken]; exact Bool.false_ne_true)]

variable {ι σ : Type}

/-- Some of the callbacks of a dispatcher forward what they are handed. The others do as they like. -/
def among (forwards : ι → Bool) (others : Behaviour ι σ) : Behaviour ι (Forwarder × σ) :=
  fun (f, memory) called m =>
    if forwards called then
      let (f, acts) := callback f called m
      ((f, memory), acts)
    else
      let (memory, acts) := others memory called m
      ((f, memory), acts)

/-- The messages that were handed to callbacks which forward them. -/
def handed (forwards : ι → Bool) (calls : List (Call ι)) : List Message :=
  (calls.filter fun call => forwards call.callback).map Call.message

theorem handed_one (forwards : ι → Bool) (call : Call ι) :
    handed forwards [call] = if forwards call.callback then [call.message] else [] := by
  simp only [handed, List.filter_cons, List.filter_nil]
  split <;> rfl

theorem handed_append (forwards : ι → Bool) (calls later : List (Call ι)) :
    handed forwards (calls ++ later) = handed forwards calls ++ handed forwards later := by
  rw [handed, List.filter_append, List.map_append, handed, handed]

theorem among_forwards (forwards : ι → Bool) (others : Behaviour ι σ) (memory : Forwarder × σ)
    (call : Call ι) :
    (among forwards others memory call.callback call.message).1.1 =
      memory.1.forwardAll (handed forwards [call]) := by
  by_cases mine : forwards call.callback = true
  · rw [among, handed_one, if_pos mine, if_pos mine]
    rfl
  · rw [among, handed_one, if_neg mine, if_neg mine]
    rfl

end Forwarder

namespace Dispatcher

open Forwarder

variable {ι σ : Type} [DecidableEq ι]

theorem perform_memory (d : Dispatcher ι σ) (acts : List (Act ι)) : (d.perform acts).1.memory = d.memory := by
  induction acts generalizing d with
  | nil => rfl
  | cons act rest ih =>
    cases act with
    | add callback => exact ih (d.add callback)
    | remove callback => exact ih (d.remove callback).1
    | fail => rfl

variable (forwards : ι → Bool) (others : Behaviour ι σ)

theorem invoke_forwards (m : Message) (d : Dispatcher ι (Forwarder × σ)) (callbacks : List ι) :
    let now := invoke (among forwards others) m d callbacks
    now.dispatcher.memory.1 = d.memory.1.forwardAll (handed forwards now.calls) := by
  induction callbacks generalizing d with
  | nil => rfl
  | cons called rest ih =>
    -- What a callback asks for changes registrations only, so the next one finds the memory it left.
    have one := among_forwards forwards others d.memory ⟨called, m⟩
    have kept := perform_memory { d with memory := (among forwards others d.memory called m).1 }
      (among forwards others d.memory called m).2
    simp only [invoke]
    cases performed : perform { d with memory := (among forwards others d.memory called m).1 }
      (among forwards others d.memory called m).2 with
    | mk after failed =>
      rw [performed] at kept
      dsimp only at kept
      cases failed with
      | true =>
        dsimp only
        rw [kept, one]
      | false =>
        dsimp only
        rw [ih after, kept, one, ← forwardAll_append, ← handed_append]
        rfl

theorem deliver_forwards (callbacks : List ι) (d : Dispatcher ι (Forwarder × σ)) (p : PacketBuffer)
    (founds : List PacketBuffer) :
    let now := (deliver (among forwards others) callbacks d p founds).1
    now.dispatcher.memory.1 = d.memory.1.forwardAll (handed forwards now.calls) := by
  induction founds generalizing d p with
  | nil => rfl
  | cons found rest ih =>
    have message := invoke_forwards forwards others found.message d callbacks
    simp only [deliver]
    cases failed : (invoke (among forwards others) found.message d callbacks).failed with
    | true => simpa only [if_true] using message
    | false =>
      simp only [Bool.false_eq_true, if_false, ih, handed_append, forwardAll_append]
      rw [message]

end Dispatcher

/-- What is done with a forwarder: a message is forwarded, or the dispatcher that calls it gets a request. -/
inductive Forwarder.Use (ι : Type)
  | forward (m : Message)
  | request (request : Dispatcher.Request ι)

namespace Dispatcher

open Forwarder

variable {ι σ : Type} [DecidableEq ι] (forwards : ι → Bool) (others : Behaviour ι σ)

def use (d : Dispatcher ι (Forwarder × σ)) : Use ι → Dispatcher ι (Forwarder × σ)
  | .forward m => { d with memory := ((d.memory.1.forward m).1, d.memory.2) }
  | .request request => d.serve (among forwards others) request

/-- The messages that the forwarder is handed in one use. -/
def handedIn (d : Dispatcher ι (Forwarder × σ)) : Use ι → List Message
  | .forward m => [m]
  | .request (.packet buffer length) => handed forwards (d.handle (among forwards others) buffer length).1.calls
  | .request (.add _) | .request (.remove _) => []

def useAll (d : Dispatcher ι (Forwarder × σ)) (uses : List (Use ι)) : Dispatcher ι (Forwarder × σ) :=
  uses.foldl (use forwards others) d

def handedInAll (d : Dispatcher ι (Forwarder × σ)) : List (Use ι) → List Message
  | [] => []
  | use :: rest => d.handedIn forwards others use ++ (d.use forwards others use).handedInAll rest

theorem use_forwards (d : Dispatcher ι (Forwarder × σ)) (use : Use ι) :
    (d.use forwards others use).memory.1 = d.memory.1.forwardAll (d.handedIn forwards others use) := by
  cases use with
  | forward m => rfl
  | request request =>
    cases request with
    | add callback => rfl
    | remove callback => rfl
    | packet buffer length => exact deliver_forwards forwards others d.callbacks d buffer (buffer.unpack length)

theorem useAll_forwards (d : Dispatcher ι (Forwarder × σ)) (uses : List (Use ι)) :
    (d.useAll forwards others uses).memory.1 = d.memory.1.forwardAll (d.handedInAll forwards others uses) := by
  induction uses generalizing d with
  | nil => rfl
  | cons use rest ih =>
    rw [useAll, List.foldl_cons, handedInAll, forwardAll_append, ← use_forwards]
    exact ih (d.use forwards others use)

end Dispatcher

namespace Forwarder

variable {ι σ : Type} [DecidableEq ι]

/-- A forwarder that is used in any way queues, in the order in which messages are handed to it, one packet for
each of them that is whole. What it did before, or failed to do, shows in nothing that it does next. Where such
a packet arrives, the message that was delivered to be forwarded is delivered again. -/
theorem queued_in_order (forwards : ι → Bool) (others : Behaviour ι σ) (d : Dispatcher ι (Forwarder × σ))
    (running : d.memory.1.isRunning = true) (uses : List (Use ι)) :
    let now := d.useAll forwards others uses
    let f := now.memory.1
    f.queued = d.memory.1.queued ++
        ((d.handedInAll forwards others uses).filter Message.isWhole).map Message.packet ∧
      (∀ m : Message,
        (m.isWhole = true ∧ (f.forward m).2 = .ok () ∧ (f.forward m).1.queued = f.queued ++ [m.packet]) ∨
        (m.isWhole = false ∧ (f.forward m).1.queued = f.queued ∧
          ∃ index e, m.FirstError index e ∧ (f.forward m).2 = .error e)) ∧
      ∀ p length, p.capacity < Bytes.limit → ∀ call ∈ (now.handle (among forwards others) p length).1.calls,
        call.message.isWhole = true →
        let packet := call.message.packet
        ∀ r : PacketBuffer, r.capacity < Bytes.limit → packet.length ≤ r.capacity →
          ∃ again, call.message.SentAs again ∧
            ∀ {κ τ : Type} [DecidableEq κ] (behave : Behaviour κ τ) (next : Dispatcher κ τ), behave.Returns →
              (next.handle behave (r.load 0 packet).1 packet.length).1.calls =
                next.callbacks.map (⟨·, again⟩) := by
  intro now f
  have forwarded : f = d.memory.1.forwardAll (d.handedInAll forwards others uses) :=
    d.useAll_forwards forwards others uses
  obtain ⟨stillRunning, queued⟩ := forwardAll_queued d.memory.1 running (d.handedInAll forwards others uses)
  rw [← forwarded] at stillRunning queued
  refine ⟨queued, fun m => ?_, ?_⟩
  · rcases f.forward_cases stillRunning m with ⟨whole, done⟩ | ⟨broken, index, e, writer, first, refused⟩
    · left
      rw [done]
      exact ⟨whole, rfl, rfl⟩
    · right
      rw [refused]
      exact ⟨broken, rfl, index, e, first, rfl⟩
  · intro p length small call called whole packet r smallNext room
    obtain ⟨found, shows, delivered⟩ := Dispatcher.shows_of_handle called
    simp only [packet, delivered] at whole room ⊢
    obtain ⟨again, width, parsed, same⟩ := PacketBuffer.parse_packet small shows whole smallNext room
    exact ⟨again.message, same, fun behave next returns => Dispatcher.handle_one returns next parsed⟩

/-- A message whose number is not there. -/
def cutMessage : Message := ⟨[47, 98], [0, 0, 0], (Table.empty.readTags [44, 105] 0).1⟩

def cutUses : List (Use (Fin 2)) :=
  [.forward cutMessage, .request (.packet Dispatcher.holdingMessage 8), .forward cutMessage,
    .request (.packet Dispatcher.holdingMessage 8)]

def cutStart : Dispatcher (Fin 2) (Forwarder × Unit) := ⟨List.finRange 2, (.new, ())⟩

/-- Two packets come, each behind a message that cannot be forwarded. While the first is handled the other
callback registers the one that forwards once more. -/
theorem queued_in_order_cut :
    let now := cutStart.useAll (· = 1) Dispatcher.yielding cutUses
    let calls := (now.handle (among (· = 1) Dispatcher.yielding) Dispatcher.holdingMessage 8).1.calls
    let packet : Bytes := [47, 97, 0, 0, 44, 84, 0, 0]
    cutStart.memory.1.isRunning = true ∧
      now.memory.1.queued = cutStart.memory.1.queued ++
        ((cutStart.handedInAll (· = 1) Dispatcher.yielding cutUses).filter Message.isWhole).map Message.packet ∧
      now.memory.1.queued = [packet, packet, packet] ∧
      (now.memory.1.forward cutMessage).1.queued = now.memory.1.queued ∧
      Dispatcher.holdingMessage.capacity < Bytes.limit ∧
      ∀ call ∈ calls, call.message.isWhole = true ∧ call.message.packet = packet ∧
        packet.length ≤ (PacketBuffer.new 256).capacity ∧
        ∃ again, call.message.SentAs again ∧
          (Dispatcher.handle .recording ⟨[(), ()], []⟩ ((PacketBuffer.new 256).load 0 packet).1
            packet.length).1.calls = [(), ()].map (⟨·, again⟩) := by
  obtain ⟨queued, next, resent⟩ := queued_in_order (· = 1) Dispatcher.yielding cutStart rfl cutUses
  have broken : cutMessage.isWhole = false := by decide +kernel
  have small : Dispatcher.holdingMessage.capacity < Bytes.limit := by
    rw [Dispatcher.holdingMessage, PacketBuffer.load_capacity, PacketBuffer.capacity_new]
    decide
  have room : 8 ≤ (PacketBuffer.new 256).capacity := by
    rw [PacketBuffer.capacity_new]
    decide
  have seen : ((cutStart.useAll (· = 1) Dispatcher.yielding cutUses).handle
      (among (· = 1) Dispatcher.yielding) Dispatcher.holdingMessage 8).1.calls.map
      (fun call => (call.message.isWhole, call.message.packet)) =
        List.replicate 2 (true, [47, 97, 0, 0, 44, 84, 0, 0]) := by
    decide +kernel
  refine ⟨rfl, queued, by decide +kernel, ?_, small, fun call member => ?_⟩
  · rcases next cutMessage with ⟨whole, _⟩ | ⟨_, kept, _⟩
    · rw [broken] at whole
      cases whole
    · exact kept
  · have here := List.mem_map_of_mem
      (f := fun call : Call (Fin 2) => (call.message.isWhole, call.message.packet)) member
    rw [seen] at here
    obtain ⟨whole, bytes⟩ := Prod.mk.inj (List.eq_of_mem_replicate here)
    obtain ⟨again, same, delivered⟩ := resent Dispatcher.holdingMessage 8 small call member whole (.new 256)
      (by rw [PacketBuffer.capacity_new]; decide) (by rw [bytes]; exact room)
    rw [bytes] at delivered
    exact ⟨whole, bytes, room, again, same, delivered .recording ⟨[(), ()], []⟩ Behaviour.recording_returns⟩

end Forwarder

end OSC
