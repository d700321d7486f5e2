import DescriptorExchange.Simulation.ScriptedHost
import DescriptorExchange.Simulation.World

/-!
Rehearsals of a coordinator: whoever holds it posts to it, in one go or with pauses, and looks at what came
of it once nothing is left to do.
-/
namespace DescriptorExchange

/-- What the holder of a coordinator, or time, or the host does. -/
inductive Stimulus where
  | post (p : Posting)
  /-- Asks for a record of the repository. -/
  | serve (handle : RecordHandle)
  /-- The host changes; what it has been asked is kept. -/
  | host (h : ScriptedHost)
  | wait (ms : Nat)
  /-- Lets go of the coordinator. -/
  | release

/-- What the holder gets back. -/
inductive Feedback where
  | posted
  /-- The coordinator has stopped. -/
  | closed
  | served (response : RecordResponse)
  /-- Nothing is given back, or nobody holds the coordinator. -/
  | nothing
  /-- The response will go to a ticket. -/
  | awaited (ticket : Nat)

namespace World

/-- Posts an item for the holder. -/
def post (p : Posting) (accepted : Feedback) (w : World ScriptedHost) : World ScriptedHost × Feedback :=
  if w.coordinator.held then
    match w.coordinator.post? p with
    | some coordinator => ({ w with coordinator }, accepted)
    | none => (w, .closed)
  else (w, .nothing)

def stimulate (ticket : Nat) (w : World ScriptedHost) : Stimulus → World ScriptedHost × Feedback
  | .post p => w.post p .posted
  | .serve handle => w.post (.serve ticket (.whole handle)) (.awaited ticket)
  | .host h => ({ w with network.far := { h with log := w.network.far.log } }, .nothing)
  | .wait ms => (w.wait ms, .nothing)
  | .release => ({ w with coordinator := w.coordinator.release }, .nothing)

def stimulateAll : Nat → List Stimulus → World ScriptedHost → World ScriptedHost × List Feedback
  | _, [], w => (w, [])
  | ticket, s :: rest, w =>
    let (w, feedback) := w.stimulate ticket s
    let (w, more) := stimulateAll (ticket + 1) rest w
    (w, feedback :: more)

/-- A response that never came was cut off by the end of the coordinator. -/
def collect (w : World ScriptedHost) : Feedback → Feedback
  | .awaited ticket =>
    match w.replies.lookup ticket with
    | some response => .served response
    | none => .closed
  | feedback => feedback

/-- Forgets what has been observed so far. -/
def unobserved (w : World ScriptedHost) : World ScriptedHost :=
  { w with events := [], changes := [], replies := [], network.far.log := default }

/-- Applies stimuli and waits until nothing is left to do. -/
def rehearse (stimuli : List Stimulus) (w : World ScriptedHost) : World ScriptedHost × List Feedback :=
  let (w, feedback) := stimulateAll 0 stimuli w.unobserved
  let w := w.settle
  (w, feedback.map w.collect)

end World
end DescriptorExchange
