import Std.Data.ExtTreeMap
import DescriptorExchange.Record.TerminusLocator

/-! What is known of the host's termini, by terminus handle. -/
namespace DescriptorExchange

structure Terminus where
  tid : TerminusId
  /-- Where requests go, if its locator says so. -/
  endpoint : Option EndpointId
  /-- Whether it can be reached. -/
  valid : Bool
  deriving DecidableEq, Repr, Inhabited

def Terminus.ofLocator (t : TerminusLocator) : Terminus :=
  { tid := t.tid, endpoint := t.endpoint?, valid := t.valid }

abbrev Termini := Std.ExtTreeMap UInt16 Terminus

/-- The endpoint of the first terminus with this id. -/
def Termini.endpoint? (termini : Termini) (tid : TerminusId) : Option EndpointId := do
  let (_, terminus) ← termini.toList.find? fun entry => entry.2.tid = tid
  terminus.endpoint

end DescriptorExchange
