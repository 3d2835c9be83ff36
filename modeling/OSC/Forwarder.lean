import OSC.Dispatcher
import OSC.Writer

namespace OSC

/-- Sends messages on to one destination. Packets are queued for a task that sends them in order. -/
structure Forwarder where
  writer : Writer
  queued : List Bytes
  isRunning : Bool

namespace Forwarder

def new : Forwarder := ⟨.new .ascii, [], true⟩

/-- Queues the message, if all of it can be decoded and there is still a task to send it. -/
def forward (f : Forwarder) (m : Message) : Forwarder × Except Error Unit :=
  match f.writer.message m with
  | (writer, .error e) => ({ f with writer }, .error e)
  | (writer, .ok ()) =>
    let (writer, packet) := writer.take
    if f.isRunning then ({ f with writer, queued := f.queued ++ [packet] }, .ok ())
    else ({ f with writer }, .error .closed)

/-- The callback that forwards what it is handed, and passes over what cannot be forwarded. -/
def callback {ι : Type} : Behaviour ι Forwarder := fun f _ m => ((f.forward m).1, [])

/-- Has the packet of `length` bytes in the buffer handled by a dispatcher with this one callback. -/
def relay (f : Forwarder) (p : PacketBuffer) (length : Nat) : Forwarder × PacketBuffer :=
  let (outcome, p) := Dispatcher.handle callback ⟨[()], f⟩ p length
  (outcome.dispatcher.memory, p)

/-- Ends the task that sends. -/
def shutdown (f : Forwarder) : Forwarder := { f with isRunning := false }

end Forwarder

end OSC
