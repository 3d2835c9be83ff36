import OSC.PacketBuffer

namespace OSC

/-- What a callback may do beside looking at its message. -/
inductive Act (ι : Type)
  | add (callback : ι)
  | remove (callback : ι)
  | fail

/-- How callbacks act on a message. What they remember from call to call is the state `σ`. -/
abbrev Behaviour (ι σ : Type) := σ → ι → Message → σ × List (Act ι)

/-- A message handed to a callback. -/
structure Call (ι : Type) where
  callback : ι
  message : Message

/-- Callbacks in the order of their registration, each as often as it was registered. -/
structure Dispatcher (ι σ : Type) where
  callbacks : List ι
  memory : σ

namespace Dispatcher

variable {ι σ : Type} [DecidableEq ι]

def add (d : Dispatcher ι σ) (callback : ι) : Dispatcher ι σ :=
  { d with callbacks := d.callbacks ++ [callback] }

/-- Takes back the first registration of a callback, and tells whether there was one. -/
def remove (d : Dispatcher ι σ) (callback : ι) : Dispatcher ι σ × Bool :=
  ({ d with callbacks := d.callbacks.erase callback }, d.callbacks.contains callback)

/-- Performs acts in order up to a failure, and tells whether there was one. -/
def perform (d : Dispatcher ι σ) : List (Act ι) → Dispatcher ι σ × Bool
  | [] => (d, false)
  | .add callback :: rest => (d.add callback).perform rest
  | .remove callback :: rest => (d.remove callback).1.perform rest
  | .fail :: _ => (d, true)

/-- The calls made, what became of the dispatcher, and whether a callback failed, after which no more
calls were made. -/
structure Outcome (ι σ : Type) where
  calls : List (Call ι)
  dispatcher : Dispatcher ι σ
  failed : Bool

/-- Hands a message to each of some callbacks. -/
def invoke (behave : Behaviour ι σ) (m : Message) (d : Dispatcher ι σ) : List ι → Outcome ι σ
  | [] => ⟨[], d, false⟩
  | callback :: rest =>
    let (memory, acts) := behave d.memory callback m
    match perform { d with memory } acts with
    | (d, true) => ⟨[⟨callback, m⟩], d, true⟩
    | (d, false) =>
      let later := invoke behave m d rest
      { later with calls := ⟨callback, m⟩ :: later.calls }

/-- Hands the messages of a packet, one after another, to each of some callbacks, and gives the buffer
as it was for the last call. -/
def deliver (behave : Behaviour ι σ) (callbacks : List ι) (d : Dispatcher ι σ) (p : PacketBuffer) :
    List PacketBuffer → Outcome ι σ × PacketBuffer
  | [] => (⟨[], d, false⟩, p)
  | found :: rest =>
    let now := invoke behave found.message d callbacks
    if now.failed then (now, found)
    else
      let (later, p) := deliver behave callbacks now.dispatcher found rest
      ({ later with calls := now.calls ++ later.calls }, p)

/-- Handles the packet of `length` bytes in the buffer. Its messages go to the callbacks that are
registered now, whatever is added or removed on the way. -/
def handle (behave : Behaviour ι σ) (d : Dispatcher ι σ) (p : PacketBuffer) (length : Nat) :
    Outcome ι σ × PacketBuffer :=
  deliver behave d.callbacks d p (p.unpack length)

def text (d : Dispatcher ι σ) : String :=
  "Dispatcher \x7b callbacks: " ++ toString d.callbacks.length ++ " \x7d"

end Dispatcher

end OSC
