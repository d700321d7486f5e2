import DescriptorExchange.Connection

/-!
A connection observed from both ends: actions on either side, each followed by everything it leads to.
-/
namespace DescriptorExchange

inductive SocketAction where
  | request (ticket : Ticket) (frame : Frame)
  /-- Gives a request up. -/
  | abandon (ticket : Ticket)
  | send (frame : Frame)
  /-- The other side writes a frame. -/
  | hostFrame (frame : Frame)
  | hostBytes (bytes : Bytes)
  /-- The other side closes. -/
  | hostClose
  /-- Requests of the other side are taken no more. -/
  | stopServing
  | shutdown

/-- What an action led to. -/
structure SocketReport where
  /-- For a message that was sent, whether it was accepted. -/
  sent : Option (Except TransportError Unit)
  /-- Frames the other side received. -/
  delivered : List Frame
  /-- Requests received from the other side. -/
  inbound : List Frame
  /-- Requests that ended, by ticket. -/
  done : List (Ticket × Except TransportError Message)

namespace Connection

/-- Writes a frame that was accepted before. Gives what the other side receives. -/
def write (c : Connection) (f : Frame) : Connection × List Frame :=
  match c.send f with
  | (c, .ok bytes) => (c, (Frame.readAll bytes).1)
  | (c, .error _) => (c, [])

/-- Acts, and looks at what has been received. What was held up goes on before a frame of this side is
written. -/
def act (c : Connection) : SocketAction → Connection × SocketReport
  | .request ticket frame =>
    match c.advance.request ticket frame with
    | (c, .ok bytes) => (c, ⟨none, (Frame.readAll bytes).1, [], []⟩)
    | (c, .error e) => (c, ⟨none, [], [], [(ticket, .error e)]⟩)
  | .abandon ticket => ((c.finish ticket).advance, ⟨none, [], [], []⟩)
  | .send frame =>
    if c.closed then (c, ⟨some (.error .closed), [], [], []⟩)
    else
      let (c, delivered) := c.advance.write frame
      (c, ⟨some (.ok ()), delivered, [], []⟩)
  | .hostFrame frame => (c.receive (frame.encode.toOption.getD []), ⟨none, [], [], []⟩)
  | .hostBytes bytes => (c.receive bytes, ⟨none, [], [], []⟩)
  | .hostClose => (c.finishInput.advance, ⟨none, [], [], []⟩)
  | .shutdown => (c.shutdown, ⟨none, [], [], []⟩)
  | .stopServing => ({ c with serving := false, inbound := [] }.advance, ⟨none, [], [], []⟩)

/-- Acts, takes the requests that have queued up, and ends every request that can end then. What has ended is
reported by ticket. -/
def observe (c : Connection) (action : SocketAction) : Connection × SocketReport :=
  let (c, report) := c.act action
  let (c, done) := c.settle
  let (c, inbound) := c.takeInbound
  (c, { report with inbound, done := (report.done ++ done).mergeSort fun a b => a.1 ≤ b.1 })

end Connection
end DescriptorExchange
