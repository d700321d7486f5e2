import DescriptorExchange.Wire.Reader

/-!
Possible states of one offset of a sensor or effecter. On the wire they are a bit field of one to
thirty-two bytes; read as a little-endian number, bit `s` says whether state `s` is possible.
-/
namespace DescriptorExchange

/-- A set of states, bit `s` for state `s`. -/
abbrev States := BitVec 256

namespace States

def empty : States := 0#256

def contains (states : States) (state : UInt8) : Bool := states.getLsbD state.toNat

def insert (states : States) (state : UInt8) : States := states ||| BitVec.twoPow 256 state.toNat

def ofList (list : List UInt8) : States := list.foldl insert empty

/-- The states in ascending order. -/
def toList (states : States) : List UInt8 :=
  ((List.range 256).map UInt8.ofNat).filter states.contains

/-- Bytes needed to hold the highest state, one for the empty set. -/
def width (states : States) : Nat := states.toNat.log2 / 8 + 1

end States

structure PossibleStates where
  /-- Names the state set the values are taken from. -/
  setId : UInt16
  states : States
  deriving DecidableEq, Repr, Inhabited

namespace PossibleStates

def maxWidth : Nat := 32

def reader : Reader PossibleStates := do
  let setId ← Reader.word16 "possible_states.state_set_id"
  let size ← Reader.byte "possible_states.size"
  if size.toNat = 0 ∨ maxWidth < size.toNat then
    throw (.invalidField "possible_states.size" (UInt32.ofNat size.toNat))
  let bits ← Reader.number "possible_states.states" size.toNat
  return { setId, states := BitVec.ofNat 256 bits }

def encode (p : PossibleStates) : Bytes :=
  word16 p.setId ++ [UInt8.ofNat p.states.width] ++ littleEndian p.states.width p.states.toNat

/-- One block for each offset of a composite sensor or effecter, after their count. -/
def listReader (field : String) : Reader (List PossibleStates) := do
  let count ← Reader.byte field
  reader.items count.toNat

def encodeList (blocks : List PossibleStates) : Bytes :=
  [UInt8.ofNat blocks.length] ++ blocks.flatMap encode

end PossibleStates

/-- Flags are zero or not on reading, zero or one on writing. -/
def flagByte (flag : Bool) : UInt8 := if flag then 1 else 0

end DescriptorExchange
