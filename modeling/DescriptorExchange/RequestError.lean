import DescriptorExchange.InstanceIds
import DescriptorExchange.Wire.Error

/-! Why a request got no answer. -/
namespace DescriptorExchange

inductive TransportError where
  /-- The connection is gone. -/
  | closed
  /-- A request with this endpoint and instance id is waiting already. -/
  | busy (eid : EndpointId) (iid : InstanceId)
  | malformed (cause : WireError)
  | io (text : String)
  deriving DecidableEq, Repr, Inhabited

def TransportError.message : TransportError → String
  | closed => "transport closed"
  | busy eid iid => "request " ++ iid.text ++ " to " ++ eid.text ++ " already in flight"
  | malformed cause => "malformed frame: " ++ cause.message
  | io text => "transport I/O: " ++ text

inductive RequestError where
  | instanceId (cause : InstanceIdError)
  | transport (cause : TransportError)
  /-- No attempt was answered in time. -/
  | timeout (eid : EndpointId) (attempts : UInt8)
  /-- The response answers another command or another type. -/
  | mismatch (expected found : UInt8)
  | decode (cause : WireError)
  deriving DecidableEq, Repr, Inhabited

def RequestError.message : RequestError → String
  | instanceId cause => cause.message
  | transport cause => cause.message
  | timeout eid attempts => "no response from " ++ eid.text ++ s!" after {attempts} attempts"
  | mismatch expected found =>
    "response mismatch: expected command " ++ Hexadecimal.filled 2 expected.toNat ++ ", got " ++
      Hexadecimal.filled 2 found.toNat
  | decode cause => cause.message

end DescriptorExchange
