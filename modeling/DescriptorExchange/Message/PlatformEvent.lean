import DescriptorExchange.Identifiers
import DescriptorExchange.Wire.Reader

/-! Bodies of the command that reports a platform event, and of its answer. -/
namespace DescriptorExchange

inductive EventClass where
  | sensor
  | effecter
  | repositoryChange
  | messagePoll
  | heartbeat
  /-- A class without a name. -/
  | other (code : UInt8)
  deriving DecidableEq, Repr, Inhabited

namespace EventClass

/-- The class a code stands for. -/
def mk (code : UInt8) : EventClass :=
  if code = 0x00 then sensor
  else if code = 0x01 then effecter
  else if code = 0x04 then repositoryChange
  else if code = 0x05 then messagePoll
  else if code = 0x06 then heartbeat
  else other code

def code : EventClass → UInt8
  | sensor => 0x00
  | effecter => 0x01
  | repositoryChange => 0x04
  | messagePoll => 0x05
  | heartbeat => 0x06
  | other code => code

end EventClass

structure PlatformEvent where
  formatVersion : UInt8
  /-- The terminus the event comes from. -/
  tid : TerminusId
  eventClass : EventClass
  data : Bytes
  deriving DecidableEq, Repr, Inhabited

namespace PlatformEvent

def command : UInt8 := 0x0A

def currentVersion : UInt8 := 0x01

def make (tid : TerminusId) (eventClass : EventClass) (data : Bytes) : PlatformEvent :=
  { formatVersion := currentVersion, tid, eventClass, data }

def encode (e : PlatformEvent) : Bytes :=
  [e.formatVersion, e.tid.value, e.eventClass.code] ++ e.data

def reader : Reader PlatformEvent := do
  let formatVersion ← Reader.byte "platform_event.format_version"
  let tid ← Reader.byte "platform_event.tid"
  let eventClass ← Reader.byte "platform_event.event_class"
  let data ← Reader.rest
  return { formatVersion, tid := ⟨tid⟩, eventClass := .mk eventClass, data }

def decode (body : Bytes) : Except WireError PlatformEvent := reader.parse body

end PlatformEvent

structure EventAnswer where
  completion : CompletionCode
  /-- Meaningful on success only. -/
  status : UInt8
  deriving DecidableEq, Repr, Inhabited

namespace EventAnswer

/-- Accepted without being logged. -/
def noLogging : UInt8 := 0x00

def encode (a : EventAnswer) : Bytes :=
  if a.completion.isSuccess then [a.completion.value, a.status] else [a.completion.value]

def reader : Reader EventAnswer := do
  let completion : CompletionCode := ⟨← Reader.byte "platform_event.completion_code"⟩
  if completion.isSuccess then
    return { completion, status := ← Reader.byte "platform_event.status" }
  else return { completion, status := 0 }

def decode (body : Bytes) : Except WireError EventAnswer := reader.parse body

end EventAnswer
end DescriptorExchange
