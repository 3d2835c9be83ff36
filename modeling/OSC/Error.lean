import OSC.Tag

namespace OSC

/-- Kinds of failure that the system reports for a socket. -/
inductive SystemFault
  | timedOut
  | wouldBlock
  | interrupted
  | connectionReset
  | connectionRefused
  | addressInUse
  | unexpectedEnd
  | other
  deriving DecidableEq

inductive Error
  | malformedAddress
  | indexOutOfRange (index count : Nat)
  | typeMismatch (index : Nat) (tag : Tag) (expected : String)
  | truncated (offset needed : Nat)
  | malformedBundle (reason : String)
  | encoding (reason : String)
  | closed
  | system (fault : SystemFault) (text : String)
  deriving DecidableEq

namespace Error

def message : Error → String
  | malformedAddress => "malformed address: must start with '/' and be NUL-terminated"
  | indexOutOfRange index count => s!"element index {index} out of range ({count} elements)"
  | typeMismatch index tag expected =>
    s!"element {index} is tagged {tag.name}, cannot read as {expected}"
  | truncated offset needed => s!"need {needed} bytes at offset {offset}, packet is truncated"
  | malformedBundle reason => "malformed bundle: " ++ reason
  | encoding reason => "encoding error: " ++ reason
  | closed => "socket closed"
  | system _ text => "I/O error: " ++ text

/-- Whether waiting longer may help. -/
def isTimeout : Error → Bool
  | system .timedOut _ | system .wouldBlock _ | system .interrupted _ => true
  | _ => false

end Error

end OSC
