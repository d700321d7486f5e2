import DescriptorExchange.Message.PlatformEvent
import DescriptorExchange.Message.SensorReadings
import DescriptorExchange.Simulation.Network

/-!
A host that serves its records and has written-down replies to single requests. It keeps what it was asked.
-/
namespace DescriptorExchange

/-- Requests a host received, oldest first. -/
structure HostLog where
  /-- Handles of the records asked for. -/
  fetched : List RecordHandle
  /-- Bodies of the events it was told. -/
  notified : List Bytes
  /-- Sensors that were read, with the endpoint the request went to. -/
  read : List (EndpointId × UInt16)
  deriving Repr, Inhabited

structure ScriptedHost where
  server : RecordServer
  /-- Replies to requests for records that take the place of the server's. -/
  fetches : List (RecordHandle × Reply)
  /-- Readings of sensors; all others are refused. -/
  readings : List (UInt16 × Reply)
  event : Reply
  log : HostLog
  deriving Repr, Inhabited

namespace ScriptedHost

/-- The answer to an event when nothing else is written down. -/
def acknowledgement : Reply := .body (EventAnswer.encode ⟨.success, EventAnswer.noLogging⟩)

def refusal : Reply := .body [CompletionCode.unsupportedCommand.value]

def replyToFetch (h : ScriptedHost) (handle : RecordHandle) : Reply :=
  (h.fetches.lookup handle).getD (.body (h.server.answer handle))

/-- Notes a request and picks the reply to it. -/
def receive (h : ScriptedHost) (f : Frame) : ScriptedHost × Reply :=
  let header := f.message.header
  if header.command = RecordRequest.command then
    match RecordRequest.decode f.message.payload with
    | .ok r => ({ h with log.fetched := h.log.fetched ++ [r.handle] }, h.replyToFetch r.handle)
    | .error _ => (h, refusal)
  else if header.command = PlatformEvent.command then
    ({ h with log.notified := h.log.notified ++ [f.message.payload] }, h.event)
  else if header.command = ReadingsRequest.command then
    match ReadingsRequest.decode f.message.payload with
    | .ok r =>
      ({ h with log.read := h.log.read ++ [(f.eid, r.sensorId)] }, (h.readings.lookup r.sensorId).getD refusal)
    | .error _ => (h, refusal)
  else (h, refusal)

end ScriptedHost

instance : FarSide ScriptedHost where
  send frame h :=
    let (h, reply) := h.receive frame
    (h, reply.answer frame.message)
  giveUp _ h := h
  prompt := true

end DescriptorExchange
