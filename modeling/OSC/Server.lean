import OSC.Dispatcher

namespace OSC

/-- What takes in datagrams for a server. One that failed keeps the address bound until it is put away. -/
inductive Listener
  | absent
  | running (buffer : PacketBuffer)
  | failed

structure Server (ι σ : Type) where
  capacity : Nat
  retries : Nat
  dispatcher : Dispatcher ι σ
  listener : Listener

namespace Server

variable {ι σ : Type} [DecidableEq ι]

def isRunning (s : Server ι σ) : Bool :=
  match s.listener with
  | .running _ => true
  | .absent | .failed => false

def isBound (s : Server ι σ) : Bool :=
  match s.listener with
  | .absent => false
  | .running _ | .failed => true

/-- Begins to listen with a new buffer, unless the server listens already. Only an address that is free
can be bound. There is no outcome without a buffer of the capacity. -/
def start? (s : Server ι σ) (free : Bool) : Option (Server ι σ × Except Error Unit) :=
  if s.isRunning then some (s, .ok ())
  else if free then
    (PacketBuffer.new? s.capacity).map fun buffer => ({ s with listener := .running buffer }, .ok ())
  else some ({ s with listener := .absent }, .error (.system .addressInUse "address in use"))

/-- How often a start waits for the address to become free. -/
def waits (s : Server ι σ) (free : Bool) : Nat := if s.isRunning || free then 0 else s.retries

/-- Puts the listener away. This is when the failure of one is reported. -/
def stop (s : Server ι σ) : Server ι σ × Except Error Unit :=
  ({ s with listener := .absent },
    match s.listener with
    | .absent | .running _ => .ok ()
    | .failed => .error (.system .other "listener failed"))

/-- Starts the server, if it is not running, and stops it. -/
def runOnce? (s : Server ι σ) (free : Bool) : Option (Server ι σ × Except Error Unit) :=
  (s.start? free).map fun
    | (s, .ok ()) => s.stop
    | (s, .error e) => (s, .error e)

/-- Takes in datagrams one after another. Each is cut to the capacity, and empty ones are passed over. A
failing callback ends the listener, which loses the datagrams still to come. -/
def receive (behave : Behaviour ι σ) (s : Server ι σ) : List Bytes → Server ι σ × List (Call ι)
  | [] => (s, [])
  | datagram :: rest =>
    match s.listener with
    | .absent | .failed => (s, [])
    | .running buffer =>
      let (loaded, length) := buffer.load 0 datagram
      if length = 0 then receive behave s rest
      else
        let (outcome, buffer) := s.dispatcher.handle behave loaded length
        let s := { s with
          dispatcher := outcome.dispatcher
          listener := if outcome.failed then .failed else .running buffer }
        let (s, later) := receive behave s rest
        (s, outcome.calls ++ later)

end Server

end OSC
