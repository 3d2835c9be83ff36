import Mathlib.Data.List.Basic
import OSC.Proofs.Deliveries

namespace OSC

variable {ι σ : Type}

/-- What befalls the registrations of a dispatcher, and the calls made by it, in the order of time. -/
inductive Event (ι : Type)
  | added (callback : ι)
  | removed (callback : ι) (found : Bool)
  | called (call : Call ι)

namespace Event

/-- The registrations after an event: each new one is the last, and the first of equals is taken back. -/
def replay [DecidableEq ι] (registered : List ι) : Event ι → List ι
  | added callback => registered ++ [callback]
  | removed callback _ => registered.erase callback
  | called _ => registered

def isAddition : Event ι → Bool
  | added _ => true
  | removed _ _ | called _ => false

def isSuccessfulRemoval : Event ι → Bool
  | removed _ found => found
  | added _ | called _ => false

def call? : Event ι → Option (Call ι)
  | called call => some call
  | added _ | removed _ _ => none

end Event

variable [DecidableEq ι]

/-- The registrations that some events lead to, from none at all. -/
def registeredBy (events : List (Event ι)) : List ι := events.foldl Event.replay []

/-- Events that lead from registrations to others, where a removal finds what is registered at the time. -/
inductive Traces : List ι → List (Event ι) → List ι → Prop
  | done {before : List ι} : Traces before [] before
  | added {before after : List ι} {callback : ι} {events : List (Event ι)} :
      Traces (before ++ [callback]) events after → Traces before (.added callback :: events) after
  | removed {before after : List ι} {callback : ι} {events : List (Event ι)} :
      Traces (before.erase callback) events after →
      Traces before (.removed callback (before.contains callback) :: events) after
  | called {before after : List ι} {call : Call ι} {events : List (Event ι)} :
      Traces before events after → Traces before (.called call :: events) after

namespace Traces

variable {before middle after : List ι} {events later : List (Event ι)}

theorem append (first : Traces before events middle) (second : Traces middle later after) :
    Traces before (events ++ later) after := by
  induction first with
  | done => exact second
  | added _ ih => exact .added (ih second)
  | removed _ ih => exact .removed (ih second)
  | called _ ih => exact .called (ih second)

theorem split (traces : Traces before (events ++ later) after) :
    ∃ middle, Traces before events middle ∧ Traces middle later after := by
  induction events generalizing before with
  | nil => exact ⟨before, .done, traces⟩
  | cons event rest ih =>
    cases traces with
    | added next =>
      obtain ⟨middle, first, second⟩ := ih next
      exact ⟨middle, .added first, second⟩
    | removed next =>
      obtain ⟨middle, first, second⟩ := ih next
      exact ⟨middle, .removed first, second⟩
    | called next =>
      obtain ⟨middle, first, second⟩ := ih next
      exact ⟨middle, .called first, second⟩

theorem replayed (traces : Traces before events after) : events.foldl Event.replay before = after := by
  induction traces with
  | done => rfl
  | added _ ih | removed _ ih | called _ ih => rw [List.foldl_cons]; exact ih

theorem found_iff {callback : ι} {found : Bool}
    (traces : Traces before (events ++ .removed callback found :: later) after) :
    found = true ↔ callback ∈ events.foldl Event.replay before := by
  obtain ⟨middle, first, second⟩ := traces.split
  rw [first.replayed]
  cases second
  exact List.contains_iff_mem

theorem length_balance (traces : Traces before events after) :
    after.length + events.countP Event.isSuccessfulRemoval = before.length + events.countP Event.isAddition := by
  induction traces with
  | done => rfl
  | @added before after callback events _ ih =>
    rw [List.length_append, List.length_singleton] at ih
    rw [List.countP_cons_of_neg (by simp [Event.isSuccessfulRemoval]),
      List.countP_cons_of_pos (by rfl)]
    omega
  | @removed before after callback events _ ih =>
    rw [List.countP_cons_of_neg (p := Event.isAddition) (by simp [Event.isAddition])]
    by_cases member : callback ∈ before
    · have shorter := List.length_erase_of_mem member
      have nonempty := List.length_pos_of_mem member
      rw [List.countP_cons_of_pos (by simpa [Event.isSuccessfulRemoval] using member)]
      omega
    · rw [List.erase_of_not_mem member] at ih
      rw [List.countP_cons_of_neg (by simpa [Event.isSuccessfulRemoval] using member)]
      exact ih
  | called _ ih =>
    rw [List.countP_cons_of_neg (by simp [Event.isSuccessfulRemoval]),
      List.countP_cons_of_neg (by simp [Event.isAddition])]
    exact ih

end Traces

/-- Callbacks that return from every call. Meanwhile they may register and unregister as they like. -/
def Behaviour.Returns (behave : Behaviour ι σ) : Prop :=
  ∀ memory callback m, .fail ∉ (behave memory callback m).2

theorem Behaviour.recording_returns : recording.Returns := fun _ _ _ => List.not_mem_nil

namespace Dispatcher

variable {behave : Behaviour ι σ}

/-- What comes of the acts of a callback, up to a failure. -/
def actEvents (d : Dispatcher ι σ) : List (Act ι) → List (Event ι)
  | [] => []
  | .add callback :: rest => .added callback :: (d.add callback).actEvents rest
  | .remove callback :: rest => .removed callback (d.remove callback).2 :: (d.remove callback).1.actEvents rest
  | .fail :: _ => []

/-- The calls for one message, and after each of them what the callback did. -/
def invokeEvents (behave : Behaviour ι σ) (m : Message) (d : Dispatcher ι σ) : List ι → List (Event ι)
  | [] => []
  | callback :: rest =>
    let (memory, acts) := behave d.memory callback m
    let acting : Dispatcher ι σ := { d with memory }
    .called ⟨callback, m⟩ :: (acting.actEvents acts ++
      match acting.perform acts with
      | (_, true) => []
      | (after, false) => invokeEvents behave m after rest)

def deliverEvents (behave : Behaviour ι σ) (callbacks : List ι) (d : Dispatcher ι σ) :
    List PacketBuffer → List (Event ι)
  | [] => []
  | found :: rest =>
    let now := invoke behave found.message d callbacks
    invokeEvents behave found.message d callbacks ++
      if now.failed then [] else deliverEvents behave callbacks now.dispatcher rest

def handleEvents (behave : Behaviour ι σ) (d : Dispatcher ι σ) (p : PacketBuffer) (length : Nat) :
    List (Event ι) :=
  deliverEvents behave d.callbacks d (p.unpack length)

theorem perform_traces (d : Dispatcher ι σ) (acts : List (Act ι)) :
    Traces d.callbacks (d.actEvents acts) (d.perform acts).1.callbacks := by
  induction acts generalizing d with
  | nil => exact .done
  | cons act rest ih =>
    cases act with
    | add callback => exact .added (ih (d.add callback))
    | remove callback => exact .removed (ih (d.remove callback).1)
    | fail => exact .done

theorem actEvents_calls (d : Dispatcher ι σ) (acts : List (Act ι)) :
    (d.actEvents acts).filterMap Event.call? = [] := by
  induction acts generalizing d with
  | nil => rfl
  | cons act rest ih =>
    cases act with
    | add callback => exact ih (d.add callback)
    | remove callback => exact ih (d.remove callback).1
    | fail => rfl

theorem perform_returns (d : Dispatcher ι σ) {acts : List (Act ι)} (returns : .fail ∉ acts) :
    (d.perform acts).2 = false := by
  induction acts generalizing d with
  | nil => rfl
  | cons act rest ih =>
    have quiet : .fail ∉ rest := fun member => returns (List.mem_cons_of_mem _ member)
    cases act with
    | add callback => exact ih (d.add callback) quiet
    | remove callback => exact ih (d.remove callback).1 quiet
    | fail => exact absurd (List.mem_cons_self ..) returns

/-- How some calls that are due turn out, made to dispatchers with these registrations. -/
structure Outcome.Follows (behave : Behaviour ι σ) (registered : List ι) (due : List (Call ι))
    (events : List (Event ι)) (now : Outcome ι σ) : Prop where
  traces : Traces registered events now.dispatcher.callbacks
  calls : events.filterMap Event.call? = now.calls
  first : now.calls <+: due
  all : now.failed = false → now.calls = due
  returns : behave.Returns → now.failed = false

namespace Outcome.Follows

variable {registered : List ι} {due dueLater : List (Call ι)} {events later : List (Event ι)}
  {now after : Outcome ι σ}

theorem cut (follows : Follows behave registered due events now) (failed : now.failed = true) :
    Follows behave registered (due ++ dueLater) events now where
  traces := follows.traces
  calls := follows.calls
  first := follows.first.trans (List.prefix_append ..)
  all := fun returned => by rw [failed] at returned; cases returned
  returns := follows.returns

theorem andThen (follows : Follows behave registered due events now) (returned : now.failed = false)
    (next : Follows behave now.dispatcher.callbacks dueLater later after) :
    Follows behave registered (due ++ dueLater) (events ++ later)
      ⟨now.calls ++ after.calls, after.dispatcher, after.failed⟩ where
  traces := follows.traces.append next.traces
  calls := by rw [List.filterMap_append, follows.calls, next.calls]
  first := by
    rw [follows.all returned]
    exact (List.prefix_append_right_inj due).mpr next.first
  all := fun last => by rw [follows.all returned, next.all last]
  returns := next.returns

end Outcome.Follows

theorem call_follows (behave : Behaviour ι σ) (m : Message) (d : Dispatcher ι σ) (callback : ι) :
    let acting : Dispatcher ι σ := { d with memory := (behave d.memory callback m).1 }
    let acts := (behave d.memory callback m).2
    Outcome.Follows behave d.callbacks [⟨callback, m⟩] (.called ⟨callback, m⟩ :: acting.actEvents acts)
      ⟨[⟨callback, m⟩], (acting.perform acts).1, (acting.perform acts).2⟩ := by
  intro acting acts
  exact {
    traces := .called (acting.perform_traces acts)
    calls := by
      rw [List.filterMap_cons_some (f := Event.call?) rfl, actEvents_calls]
    first := List.prefix_rfl
    all := fun _ => rfl
    returns := fun returns => acting.perform_returns (returns d.memory callback m) }

/-- A message goes to each of some callbacks, whatever those before it did. -/
theorem invoke_follows (behave : Behaviour ι σ) (m : Message) (d : Dispatcher ι σ) (callbacks : List ι) :
    Outcome.Follows behave d.callbacks (callbacks.map (⟨·, m⟩)) (invokeEvents behave m d callbacks)
      (invoke behave m d callbacks) := by
  induction callbacks generalizing d with
  | nil => exact ⟨.done, rfl, List.nil_prefix, fun _ => rfl, fun _ => rfl⟩
  | cons callback rest ih =>
    have call := call_follows behave m d callback
    simp only [invokeEvents, invoke]
    cases performed : perform { d with memory := (behave d.memory callback m).1 } (behave d.memory callback m).2 with
    | mk after failed =>
      simp only [performed] at call
      cases failed with
      | true =>
        dsimp only
        rw [List.append_nil]
        exact call.cut rfl
      | false => exact call.andThen rfl (ih after)

/-- The messages of a packet go, one after another, to each of the callbacks. -/
theorem deliver_follows (behave : Behaviour ι σ) (callbacks : List ι) (d : Dispatcher ι σ) (p : PacketBuffer)
    (founds : List PacketBuffer) :
    Outcome.Follows behave d.callbacks (founds.flatMap fun found => callbacks.map (⟨·, found.message⟩))
      (deliverEvents behave callbacks d founds) (deliver behave callbacks d p founds).1 := by
  induction founds generalizing d p with
  | nil => exact ⟨.done, rfl, List.nil_prefix, fun _ => rfl, fun _ => rfl⟩
  | cons found rest ih =>
    have message := invoke_follows behave found.message d callbacks
    rw [deliverEvents, deliver, List.flatMap_cons]
    cases failed : (invoke behave found.message d callbacks).failed with
    | true =>
      simp only [if_true, List.append_nil]
      exact message.cut failed
    | false =>
      simp only [Bool.false_eq_true, if_false]
      exact message.andThen failed (ih (invoke behave found.message d callbacks).dispatcher found)

/-- What is asked of a dispatcher from outside: a packet stands in a buffer of any content. -/
inductive Request (ι : Type)
  | add (callback : ι)
  | remove (callback : ι)
  | packet (buffer : PacketBuffer) (length : Nat)

def serve (behave : Behaviour ι σ) (d : Dispatcher ι σ) : Request ι → Dispatcher ι σ
  | .add callback => d.add callback
  | .remove callback => (d.remove callback).1
  | .packet buffer length => (d.handle behave buffer length).1.dispatcher

def serveEvents (behave : Behaviour ι σ) (d : Dispatcher ι σ) : Request ι → List (Event ι)
  | .add callback => [.added callback]
  | .remove callback => [.removed callback (d.remove callback).2]
  | .packet buffer length => d.handleEvents behave buffer length

def run (behave : Behaviour ι σ) (d : Dispatcher ι σ) (requests : List (Request ι)) : Dispatcher ι σ :=
  requests.foldl (serve behave) d

def runEvents (behave : Behaviour ι σ) (d : Dispatcher ι σ) : List (Request ι) → List (Event ι)
  | [] => []
  | request :: rest => d.serveEvents behave request ++ (d.serve behave request).runEvents behave rest

theorem serve_traces (behave : Behaviour ι σ) (d : Dispatcher ι σ) (request : Request ι) :
    Traces d.callbacks (d.serveEvents behave request) (d.serve behave request).callbacks := by
  cases request with
  | add callback => exact .added .done
  | remove callback => exact .removed .done
  | packet buffer length => exact (deliver_follows behave d.callbacks d buffer (buffer.unpack length)).traces

theorem run_traces (behave : Behaviour ι σ) (d : Dispatcher ι σ) (requests : List (Request ι)) :
    Traces d.callbacks (d.runEvents behave requests) (d.run behave requests).callbacks := by
  induction requests generalizing d with
  | nil => exact .done
  | cons request rest ih => exact (serve_traces behave d request).append (ih (d.serve behave request))

/-- The registrations of a dispatcher after any run of requests, at the end of it and at each point on the
way, in the middle of a packet too: they are the additions in order, less what was taken back; a removal
finds what is registered just then; and their number is that of additions less that of removals that found
something. The packet that comes next goes, message by message, to each callback registered when it comes,
as often as it is registered, whatever the callbacks add and remove meanwhile. -/
theorem run_registrations (behave : Behaviour ι σ) (memory : σ) (requests : List (Request ι)) :
    let d := run behave ⟨[], memory⟩ requests
    let events := runEvents behave ⟨[], memory⟩ requests
    d.callbacks = registeredBy events ∧
      (∀ before later callback found, events = before ++ .removed callback found :: later →
        (found = true ↔ callback ∈ registeredBy before)) ∧
      (∀ before later, events = before ++ later →
        (registeredBy before).length + before.countP Event.isSuccessfulRemoval =
          before.countP Event.isAddition) ∧
      ∀ buffer length,
        let due := (buffer.unpack length).flatMap fun found => d.callbacks.map fun callback =>
          (⟨callback, found.message⟩ : Call ι)
        let packet := (d.handle behave buffer length).1
        (d.serveEvents behave (.packet buffer length)).filterMap Event.call? = packet.calls ∧
          packet.calls <+: due ∧ (packet.failed = false → packet.calls = due) ∧
          (behave.Returns → packet.failed = false) := by
  intro d events
  have traces : Traces [] events d.callbacks := run_traces behave ⟨[], memory⟩ requests
  refine ⟨traces.replayed.symm, ?_, ?_, ?_⟩
  · intro before later callback found split
    rw [split] at traces
    exact traces.found_iff
  · intro before later split
    rw [split] at traces
    obtain ⟨middle, first, _⟩ := traces.split
    have balance := first.length_balance
    rw [registeredBy, first.replayed, balance, List.length_nil, Nat.zero_add]
  · intro buffer length due packet
    have follows := deliver_follows behave d.callbacks d buffer (buffer.unpack length)
    exact ⟨follows.calls, follows.first, follows.all, follows.returns⟩

/-- The first callback registers the second and takes itself back, in every call. -/
def yielding : Behaviour (Fin 2) Unit := fun _ callback _ =>
  ((), if callback = 0 then [.add 1, .remove 0] else [])

def holdingMessage : PacketBuffer := ((PacketBuffer.new 256).load 0 [47, 97, 0, 0, 44, 84, 0, 0]).1

theorem run_registrations_yielding :
    let requests : List (Request (Fin 2)) := [.add 0, .add 0, .remove 1, .packet holdingMessage 8]
    let d := run yielding ⟨[], ()⟩ requests
    let events := runEvents yielding ⟨[], ()⟩ requests
    yielding.Returns ∧ d.callbacks = [1, 1] ∧ d.callbacks = registeredBy events ∧
      (d.handle yielding holdingMessage 8).1.calls =
        (holdingMessage.unpack 8).flatMap fun found => d.callbacks.map fun callback =>
          (⟨callback, found.message⟩ : Call (Fin 2)) := by
  have returns : yielding.Returns := by
    intro memory callback m
    unfold yielding
    split <;> simp
  have registered : (run yielding ⟨[], ()⟩ [.add 0, .add 0, .remove 1, .packet holdingMessage 8]).callbacks =
      [1, 1] := by
    decide +kernel
  obtain ⟨replayed, _, _, packets⟩ :=
    run_registrations yielding () [.add 0, .add 0, .remove 1, .packet holdingMessage 8]
  obtain ⟨_, _, all, returned⟩ := packets holdingMessage 8
  exact ⟨returns, registered, replayed, all (returned returns)⟩

end Dispatcher

end OSC
