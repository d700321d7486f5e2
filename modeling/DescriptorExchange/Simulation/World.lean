import DescriptorExchange.Coordinator
import DescriptorExchange.Simulation.Network

/-!
A coordinator at work in a simulated network. The coordinator empties its inbox first; then the errands it
has given out run, one after another; time moves on only when neither has anything to do.
-/
namespace DescriptorExchange

/-- What a call is made for. -/
inductive Errand where
  | fetch (cycle : CycleId) (query : Query)
  | announce (query : Query)
  /-- Sensors still to be read, with the numbers of sensors read and of states accepted so far. -/
  | survey (cycle : CycleId) (targets : List SurveyTarget) (read applied : Nat)

structure World (ω : Type) where
  coordinator : Coordinator
  network : Network ω
  /-- What the outstanding calls are for. -/
  calls : List (CallId × Errand)
  /-- Errands that have not begun. -/
  ready : List Errand
  events : List ExchangeEvent
  changes : List StateChange
  replies : List (Nat × RecordResponse)

namespace World

variable {ω : Type} [FarSide ω]

def start (coordinator : Coordinator) (policy : RetryPolicy) (far : ω) : World ω :=
  { coordinator, network := .start policy far, calls := [], ready := [], events := [], changes := [], replies := [] }

def apply (w : World ω) : Effect → World ω
  | .fetch cycle query => { w with ready := w.ready ++ [.fetch cycle query] }
  | .announce query => { w with ready := w.ready ++ [.announce query] }
  | .survey cycle targets => { w with ready := w.ready ++ [.survey cycle targets 0 0] }
  | .reply ticket response => { w with replies := w.replies ++ [(ticket, response)] }
  | .report event => { w with events := w.events ++ [event] }

/-- Whether a reading was answered well, and the states in it that are accepted. -/
def digest (w : World ω) (t : SurveyTarget) (answer : Except RequestError Bytes) : Option (List StateChange) :=
  match answer.toOption.bind fun body => (ReadingsResponse.decode body).toOption with
  | none => none
  | some r => if r.completion.isSuccess then some (w.coordinator.acceptReadings t r.readings) else none

/-- Notes the answer to a reading, and the numbers with it. -/
def note (w : World ω) (t : SurveyTarget) (answer : Except RequestError Bytes) (read applied : Nat) :
    World ω × Nat × Nat :=
  match w.digest t answer with
  | none => (w, read, applied)
  | some changes => ({ w with changes := w.changes ++ changes }, read + 1, applied + changes.length)

/-- Reads sensors until one keeps it waiting or all are read. -/
def survey (cycle : CycleId) : List SurveyTarget → Nat → Nat → World ω → World ω
  | [], read, applied, w => { w with events := w.events ++ [.surveyed cycle read applied] }
  | t :: rest, read, applied, w =>
    let (network, asked) := w.network.ask t.query
    let w := { w with network }
    match asked with
    | .waiting id => { w with calls := w.calls ++ [(id, .survey cycle (t :: rest) read applied)] }
    | .done answer =>
      let (w, read, applied) := w.note t answer read applied
      survey cycle rest read applied w

/-- Goes on with an errand whose call has ended. -/
def resume (w : World ω) (answer : Except RequestError Bytes) : Errand → World ω
  | .fetch cycle _ => { w with coordinator := w.coordinator.fetched cycle answer }
  | .announce _ => w
  | .survey cycle [] read applied => survey cycle [] read applied w
  | .survey cycle (t :: rest) read applied =>
    let (w, read, applied) := w.note t answer read applied
    survey cycle rest read applied w

/-- Begins an errand. -/
def launch (w : World ω) (errand : Errand) : World ω :=
  let single (query : Query) : World ω :=
    match w.network.ask query with
    | (network, .waiting id) => { w with network, calls := w.calls ++ [(id, errand)] }
    | (network, .done answer) => { w with network }.resume answer errand
  match errand with
  | .fetch _ query => single query
  | .announce query => single query
  | .survey cycle targets read applied => survey cycle targets read applied w

/-- The current attempt of a call ends without an answer. -/
def expire (w : World ω) (id : CallId) : World ω :=
  match w.network.expire id with
  | (network, .waiting _) => { w with network }
  | (network, .done answer) =>
    let rest := { w with network, calls := w.calls.filter fun entry => entry.1 ≠ id }
    match w.calls.lookup id with
    | none => rest
    | some errand => rest.resume answer errand

/-- Does the next thing there is to do, up to a time if one is given. None if there is nothing. -/
def step (limit : Option Nat) (w : World ω) : Option (World ω) :=
  match w.coordinator.process with
  | some (coordinator, effects) => some (effects.foldl apply { w with coordinator })
  | none =>
    if w.ready.isEmpty then
      match w.network.nextDeadline? with
      | none => none
      | some time =>
        if limit.any (· < time) then none
        else
          let (network, due) := w.network.advance time
          some (due.foldl expire { w with network })
    else some (w.ready.foldl launch { w with ready := [] })

/-- Goes on for a number of steps, or until there is nothing to do. -/
def run (limit : Option Nat) : Nat → World ω → World ω
  | 0, w => w
  | steps + 1, w =>
    match w.step limit with
    | none => w
    | some w => run limit steps w

/-- More steps than any scenario takes. -/
def patience : Nat := 10000000

/-- Goes on until there is nothing to do. -/
def settle (w : World ω) : World ω := w.run none patience

/-- Lets an amount of time pass. -/
def wait (ms : Nat) (w : World ω) : World ω :=
  let time := w.network.clock + ms
  let w := w.run (some time) patience
  { w with network.clock := time }

end World
end DescriptorExchange
