import DescriptorExchange.Coordinator
import DescriptorExchange.Message.SensorEvent

/-!
Requests of the host. State changes are checked against the sensor index, a change of the host's repository
becomes items for the coordinator, and records are served out of the repository. Everything else is refused.
-/
namespace DescriptorExchange

/-- What a request of the host comes down to. -/
inductive HostRequest where
  | stateChange (key : SensorKey) (offset state : UInt8)
  /-- To be posted in order; not ready if the coordinator has stopped. -/
  | repositoryChange (postings : List Posting)
  | record (request : RecordRequest)
  /-- An event that is accepted and has no effect. -/
  | ignored
  | refused (code : CompletionCode)

namespace HostRequest

/-- Listed changes are deleted or fetched again; any other change begins a cycle over everything. -/
def postings (c : RepositoryChange) : List Posting :=
  if c.format = .recordHandles then
    c.records.map fun r =>
      match r.operation with
      | .refreshAll => .resync
      | .deleted => .delete r.entries
      | .added => .fetch r.entries
      | .modified => .fetch r.entries
  else [.resync]

def ofEvent (e : PlatformEvent) : HostRequest :=
  if e.eventClass = .sensor then
    match SensorEvent.decode e.data with
    | .ok ⟨sensorId, .stateChange offset state _⟩ => .stateChange ⟨e.tid, sensorId⟩ offset state
    | .ok ⟨_, .other ..⟩ => .ignored
    | .error _ => .refused .invalidData
  else if e.eventClass = .repositoryChange then
    match RepositoryChange.decode e.data with
    | .ok change => .repositoryChange (postings change)
    | .error _ => .refused .invalidData
  else .refused .invalidData

def ofMessage (m : Message) : HostRequest :=
  if m.header.type = .platform ∧ m.header.command = PlatformEvent.command then
    match PlatformEvent.decode m.payload with
    | .ok e => ofEvent e
    | .error _ => .refused .invalidLength
  else if m.header.type = .platform ∧ m.header.command = RecordRequest.command then
    match RecordRequest.decode m.payload with
    | .ok r => .record r
    | .error _ => .refused .invalidLength
  else .refused .unsupportedCommand

/-- The body of an answer that tells nothing but how it went. -/
def completionBody (code : CompletionCode) : Bytes := EventAnswer.encode ⟨code, EventAnswer.noLogging⟩

end HostRequest

namespace Coordinator

/-- Posts items in order; false as soon as one cannot be posted. -/
def postAll : List Posting → Coordinator → Coordinator × Bool
  | [], c => (c, true)
  | p :: rest, c =>
    match c.post? p with
    | none => (c, false)
    | some c => postAll rest c

end Coordinator
end DescriptorExchange
