import Std.Data.ExtTreeMap
import DescriptorExchange.Identifiers

/-!
Allocation of instance ids. Every terminus has a pool of its own. Ids are handed out in a circle,
starting after the one handed out last, and stay taken until they are given back.
-/
namespace DescriptorExchange

structure InstancePool where
  /-- A bit for each id, set while it is in use. -/
  inUse : UInt32
  /-- Where the search starts. -/
  next : UInt8
  deriving DecidableEq, Repr, Inhabited

inductive InstanceIdError where
  | exhausted (tid : TerminusId)
  /-- The id is out of range or not in use. -/
  | notAllocated (tid : TerminusId) (iid : InstanceId)
  deriving DecidableEq, Repr, Inhabited

def InstanceIdError.message : InstanceIdError → String
  | exhausted tid => "no free instance id for " ++ tid.text
  | notAllocated tid iid => iid.text ++ " is not allocated for " ++ tid.text

namespace InstancePool

def empty : InstancePool := ⟨0, 0⟩

/-- The bit of an id there is. -/
def bit (iid : InstanceId) : UInt32 := 1 <<< iid.value.toUInt32

/-- The id that comes a number of steps behind the start, in the circle of all ids. -/
def candidate (p : InstancePool) (step : Nat) : InstanceId :=
  ⟨(p.next + UInt8.ofNat step) % UInt8.ofNat InstanceId.count⟩

def allocate (p : InstancePool) : Option (InstancePool × InstanceId) :=
  let candidates := (List.range InstanceId.count).map p.candidate
  (candidates.find? fun iid => p.inUse &&& bit iid = 0).map fun iid =>
    (⟨p.inUse ||| bit iid, (iid.value + 1) % UInt8.ofNat InstanceId.count⟩, iid)

/-- None if the id is out of range or not in use. -/
def release (p : InstancePool) (iid : InstanceId) : Option InstancePool :=
  if ¬ iid.isValid ∨ p.inUse &&& bit iid = 0 then none
  else some { p with inUse := p.inUse &&& ~~~ bit iid }

/-- How many ids are in use. -/
def count (p : InstancePool) : Nat := p.inUse.toBitVec.cpop.toNat

end InstancePool

/-- Pools by terminus; a terminus without one has an empty pool. -/
structure InstanceIds where
  pools : Std.ExtTreeMap UInt8 InstancePool

namespace InstanceIds

def empty : InstanceIds := ⟨∅⟩

instance : Inhabited InstanceIds := ⟨empty⟩

def pool (ids : InstanceIds) (tid : TerminusId) : InstancePool :=
  (ids.pools[tid.value]?).getD .empty

def setPool (ids : InstanceIds) (tid : TerminusId) (p : InstancePool) : InstanceIds :=
  ⟨ids.pools.insert tid.value p⟩

def allocate (ids : InstanceIds) (tid : TerminusId) : Except InstanceIdError (InstanceIds × InstanceId) :=
  match (ids.pool tid).allocate with
  | some (p, iid) => .ok (ids.setPool tid p, iid)
  | none => .error (.exhausted tid)

def release (ids : InstanceIds) (tid : TerminusId) (iid : InstanceId) : Except InstanceIdError InstanceIds :=
  match (ids.pool tid).release iid with
  | some p => .ok (ids.setPool tid p)
  | none => .error (.notAllocated tid iid)

/-- Allocates a number of ids, as far as there are any. -/
def take (ids : InstanceIds) (tid : TerminusId) : Nat → InstanceIds
  | 0 => ids
  | count + 1 =>
    match ids.allocate tid with
    | .ok (ids, _) => ids.take tid count
    | .error _ => ids

/-- Number of ids in use. -/
def inUse (ids : InstanceIds) (tid : TerminusId) : Nat := (ids.pool tid).count

end InstanceIds
end DescriptorExchange
