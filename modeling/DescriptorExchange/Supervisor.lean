import DescriptorExchange.Coordinator

/-!
Supervision of the connection to the host. While there is none, attempts to connect are made, with a pause
after each that fails. The first connection may begin a cycle; a connection that closes makes the host
unreachable, and every later connection makes it reachable again.
-/
namespace DescriptorExchange

inductive SupervisorState where
  /-- An attempt to connect is under way. -/
  | connecting
  /-- Waits before the next attempt. -/
  | pausing
  | connected
  /-- Ended by a shutdown. -/
  | stopped
  /-- Ended because the coordinator has stopped. -/
  | failed
  deriving DecidableEq, Repr, Inhabited

structure Supervisor where
  /-- Whether the first connection begins a cycle. -/
  fetchOnStart : Bool
  /-- Whether a connection has closed before. -/
  reconnecting : Bool
  state : SupervisorState
  deriving DecidableEq, Repr, Inhabited

inductive LinkEvent where
  | refused
  | pauseOver
  | opened
  | closed
  | shutdown
  deriving DecidableEq, Repr, Inhabited

inductive LinkAction where
  /-- Requests to the host go over the new connection from now on. -/
  | install
  /-- There is no connection for requests any more. -/
  | clear
  | post (p : Posting)

namespace Supervisor

def start (fetchOnStart : Bool) : Supervisor :=
  { fetchOnStart, reconnecting := false, state := .connecting }

/-- What is posted when a connection is up. -/
def greeting (s : Supervisor) : List LinkAction :=
  if s.reconnecting then [.post .hostUp]
  else if s.fetchOnStart then [.post .resync]
  else []

/-- Takes an event. Events that do not fit the state change nothing. -/
def step (s : Supervisor) : LinkEvent → Supervisor × List LinkAction
  | .refused => if s.state = .connecting then ({ s with state := .pausing }, []) else (s, [])
  | .pauseOver => if s.state = .pausing then ({ s with state := .connecting }, []) else (s, [])
  | .opened =>
    if s.state = .connecting then ({ s with state := .connected }, .install :: s.greeting) else (s, [])
  | .closed =>
    if s.state = .connected then
      ({ s with state := .connecting, reconnecting := true }, [.clear, .post .hostDown])
    else (s, [])
  | .shutdown =>
    match s.state with
    | .connected => ({ s with state := .stopped }, [.clear])
    | .connecting | .pausing => ({ s with state := .stopped }, [])
    | .stopped | .failed => (s, [])

/-- Nothing can be posted any more. -/
def fail (s : Supervisor) : Supervisor := { s with state := .failed }

end Supervisor
end DescriptorExchange
