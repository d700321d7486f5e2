import DescriptorExchange.Configuration
import DescriptorExchange.Connection
import DescriptorExchange.Responder
import DescriptorExchange.Simulation.ScriptedHost
import DescriptorExchange.Simulation.World
import DescriptorExchange.Supervisor

/-!
The whole service against a scripted host: connections come and go, the host sends requests over the one
that is up, and requests to the host go the same way.
-/
namespace DescriptorExchange

/-- The host behind a connection, if there is one. -/
structure Bridge where
  host : ScriptedHost
  link : Option Connection
  nextTicket : Ticket
  /-- Responses the host received. -/
  answers : List Frame
  deriving Inhabited

namespace Bridge

/-- Frames that bytes written by this side carry. -/
def delivered (bytes : Bytes) : List Frame := (Frame.readAll bytes).1

/-- The host takes the frames written over a connection. It answers requests over it and keeps the rest. -/
def deliver (c : Connection) : List Frame → Bridge → Bridge
  | [], b => { b with link := some c }
  | f :: rest, b =>
    if f.message.header.request then
      let (host, reply) := b.host.receive f
      let bytes : Bytes := match reply.answer f.message with
        | some (.answered m) => ((⟨f.eid, m⟩ : Frame).encode.toOption).getD []
        | _ => []
      deliver (c.receive bytes) rest { b with host }
    else deliver c rest { b with answers := b.answers ++ [f] }

/-- Sends a request over the connection and waits as long as the host takes to answer at once. -/
def send (f : Frame) (b : Bridge) : Bridge × Option AttemptResult :=
  match b.link with
  | none => (b, some (.failed .closed))
  | some c =>
    let ticket := b.nextTicket
    let b := { b with nextTicket := ticket + 1 }
    match c.request ticket f with
    | (c, .error e) => ({ b with link := some c }, some (.failed e))
    | (c, .ok bytes) =>
      let b := b.deliver c (delivered bytes)
      let outcome := b.link.bind fun c => c.outcome? ticket
      let link := if outcome.isSome then b.link.map fun c => c.finish ticket else b.link
      ({ b with link }, outcome.map fun
        | .ok m => .answered m
        | .error e => .failed e)

/-- The request that waits under the key of a frame finishes. -/
def giveUp (f : Frame) (b : Bridge) : Bridge :=
  { b with link := b.link.map fun c => match c.pending[f.key]? with
    | some ticket => c.finish ticket
    | none => c }

/-- An answer takes its way over the connection. -/
instance : FarSide Bridge := ⟨send, giveUp, false⟩

end Bridge

structure Service where
  world : World Bridge
  supervisor : Supervisor
  /-- How attempts to connect will end, in order; whether they succeed. -/
  script : List Bool
  /-- Attempts to connect that were made. -/
  attempts : Nat
  /-- For each errand that is under way, requests for records that were served since it was given out. -/
  ages : List Nat

/-- What is done to the service from outside. -/
inductive ServiceAction where
  /-- One more attempt to connect will succeed. -/
  | connect
  /-- A number of further attempts to connect will fail. -/
  | refuse (times : Nat)
  /-- The host closes the connection. -/
  | drop
  | send (frames : List Frame)
  | sendBytes (bytes : Bytes)
  | host (h : ScriptedHost)
  /-- A request that goes to the host as it is. -/
  | probe (frame : Frame)

namespace Service

def start (c : Configuration) (host : ScriptedHost) : Except ConfigurationError Service := do
  let exchange ← c.exchange
  let bridge : Bridge := { host, link := none, nextTicket := 0, answers := [] }
  return { world := .start (.start exchange true) c.policy bridge
           supervisor := .start c.fetchOnStart, script := [], attempts := 0, ages := [] }

def bridge (s : Service) : Bridge := s.world.network.far

def setBridge (s : Service) (b : Bridge) : Service := { s with world.network.far := b }

def setLink (s : Service) (link : Option Connection) : Service := s.setBridge { s.bridge with link }

/-- Does what the supervisor wants; it fails when something cannot be posted. -/
def follow : List LinkAction → Service → Service
  | [], s => s
  | .install :: rest, s => follow rest (s.setLink (some .fresh))
  | .clear :: rest, s => follow rest (s.setLink none)
  | .post p :: rest, s =>
    match s.world.coordinator.post? p with
    | some coordinator => follow rest { s with world.coordinator := coordinator }
    | none => { s with supervisor := s.supervisor.fail }

def notice (event : LinkEvent) (s : Service) : Service :=
  let (supervisor, actions) := s.supervisor.step event
  follow actions { s with supervisor }

/-- Lets the coordinator empty its inbox, without beginning any errand. -/
def drainInbox : Nat → World Bridge → World Bridge
  | 0, w => w
  | bound + 1, w =>
    match w.coordinator.process with
    | none => w
    | some (coordinator, effects) => drainInbox bound (effects.foldl World.apply { w with coordinator })

/-- How many requests for records are served while a request goes to the host and its answer comes back. -/
def roundTrip : Nat := 3

/-- A request for a record has been served. Errands that have been under way long enough come to their end,
unless there are frames in front of the answers to them. -/
def elapse (s : Service) : Service :=
  let ready := s.world.ready
  let ages := (s.ages ++ List.replicate (ready.length - s.ages.length) 0).map (· + 1)
  let due := if s.bridge.link.any (·.backlog.isEmpty) then (ages.takeWhile (roundTrip ≤ ·)).length else 0
  let w := (ready.take due).foldl World.launch { s.world with ready := [] }
  { s with world := { w with ready := ready.drop due ++ w.ready }, ages := ages.drop due }

/-- Answers a request of the host. -/
def respond (s : Service) (m : Message) : Service × Bytes :=
  let w := s.world
  match HostRequest.ofMessage m with
  | .refused code => (s, HostRequest.completionBody code)
  | .ignored => (s, HostRequest.completionBody .success)
  | .stateChange key offset state =>
    match w.coordinator.exchange.sensors.report key offset state with
    | .ok change =>
      ({ s with world.changes := w.changes ++ [change] }, HostRequest.completionBody .success)
    | .error status => (s, HostRequest.completionBody status.completion)
  | .repositoryChange postings =>
    let (coordinator, posted) := w.coordinator.postAll postings
    ({ s with world.coordinator := coordinator },
      HostRequest.completionBody (if posted then .success else .notReady))
  | .record request =>
    match w.coordinator.post? (.serve 0 request) with
    | none => (s, HostRequest.completionBody .notReady)
    | some coordinator =>
      let w := drainInbox World.patience { w with coordinator }
      ({ s with world := { w with replies := [] } }.elapse, match w.replies.lookup 0 with
        | some response => response.encode
        | none => HostRequest.completionBody .notReady)

/-- Answers requests of the host one after another, until none is left or an answer cannot be sent. The first
argument bounds their number. -/
def serveInbound : Nat → Service → Service
  | 0, s => s
  | bound + 1, s =>
    match s.bridge.link.bind Connection.takeNext? with
    | none => s
    | some (c, f) =>
      let (s, body) := (s.setLink (some c)).respond f.message
      match s.bridge.link with
      | none => s
      | some c =>
        match c.send ⟨f.eid, ⟨f.message.header.response, body⟩⟩ with
        | (_, .error _) => s
        | (c, .ok bytes) =>
          serveInbound bound (s.setBridge (s.bridge.deliver c (Bridge.delivered bytes)))

/-- A connection that has closed is reported. -/
def noticeClosed (s : Service) : Service :=
  if s.bridge.link.any Connection.closed then s.notice .closed else s

/-- The host writes bytes to the connection, if there is one. -/
def receive (s : Service) (bytes : Bytes) : Service :=
  match s.bridge.link with
  | none => s
  | some c => (serveInbound (bytes.length + 1) (s.setLink (some (c.receive bytes)))).noticeClosed

/-- Makes attempts to connect as scripted, with a pause after each that fails. -/
def attempt : List Bool → Service → Service
  | [], s => { s with script := [] }
  | succeeds :: rest, s =>
    if s.supervisor.state = .connecting then
      let s := { s with attempts := s.attempts + 1 }
      if succeeds then { s.notice .opened with script := rest }
      else attempt rest ((s.notice .refused).notice .pauseOver)
    else { s with script := succeeds :: rest }

/-- Performs an action. A request of its own gives its result, if the host answers it. -/
def perform (s : Service) : ServiceAction → Service × Option AttemptResult
  | .connect => ({ s with script := s.script ++ [true] }, none)
  | .refuse times => ({ s with script := s.script ++ List.replicate times false }, none)
  | .drop => ((s.setLink (s.bridge.link.map Connection.close)).noticeClosed, none)
  | .send frames => (s.receive (frames.flatMap fun f => f.encode.toOption.getD []), none)
  | .sendBytes bytes => (s.receive bytes, none)
  | .host h => (s.setBridge { s.bridge with host := { h with log := s.bridge.host.log } }, none)
  | .probe frame =>
    match s.bridge.send frame with
    | (b, some result) => (s.setBridge b, some result)
    | (b, none) => (s.setBridge (b.giveUp frame), none)

/-- Forgets what has been observed so far. -/
def unobserved (s : Service) : Service :=
  { s with
    world := { s.world with
      events := [], changes := [], replies := [], network.far.host.log := default, network.far.answers := [] }
    attempts := 0
    ages := [] }

/-- Reports a connection that has closed, connects again as scripted, and goes on until nothing is left to
do. -/
def settle (s : Service) : Service :=
  let s := s.noticeClosed
  let s := attempt s.script s
  { s with world := s.world.settle }

/-- Performs an action and waits until nothing is left to do. -/
def rehearse (action : ServiceAction) (s : Service) : Service × Option AttemptResult :=
  let (s, result) := s.unobserved.perform action
  (s.settle.settle, result)

/-- Shuts everything down. -/
def shutDown (s : Service) : Service :=
  let s := s.notice .shutdown
  let w := match s.world.coordinator.post? .stop with
    | some coordinator => { s.world with coordinator }
    | none => s.world
  { s with world := w }.settle

end Service
end DescriptorExchange
