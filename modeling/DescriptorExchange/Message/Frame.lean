import DescriptorExchange.Message.Header
import DescriptorExchange.RequestError

/-!
Frames on a byte stream. A frame is the length of all that follows it, an endpoint, and a message. A
stream may be cut anywhere: inside a frame that is an error, inside the length it counts as the end.
-/
namespace DescriptorExchange

/-- A message and the endpoint it goes to or comes from. -/
structure Frame where
  eid : EndpointId
  message : Message
  deriving DecidableEq, Repr, Inhabited

namespace Frame

def lengthWidth : Nat := 2

/-- The endpoint and the message header, which every frame has. -/
def minBody : Nat := 1 + MessageHeader.length

def maxBody : Nat := 0xFFFF

/-- Fails on a message longer than the length field can tell. -/
def encode (f : Frame) : Except TransportError Bytes :=
  let length := minBody + f.message.payload.length
  if maxBody < length then .error (.malformed (.invalidField "frame.len" (UInt32.ofNat length)))
  else .ok (littleEndian lengthWidth length ++ [f.eid.value] ++ f.message.header.encode ++ f.message.payload)

/-- What the bytes received so far begin with. -/
inductive Front where
  /-- A frame, and the bytes after it. -/
  | whole (frame : Frame) (rest : Bytes)
  /-- A frame that is not there to its end, or nothing. -/
  | short
  | broken (cause : WireError)
  deriving DecidableEq, Repr

/-- Reads the body of a frame. -/
def ofBody (body : Bytes) : Except WireError Frame := do
  let (header, payload) ← MessageHeader.decode (body.drop 1)
  return { eid := ⟨body.headD 0⟩, message := { header, payload } }

/-- A length too small for any frame is refused before its bytes arrive. -/
def front (input : Bytes) : Front :=
  if input.length < lengthWidth then .short
  else
    let length := ofLittleEndian (input.take lengthWidth)
    let after := input.drop lengthWidth
    if length < minBody then .broken (.truncated "frame" minBody length)
    else if after.length < length then .short
    else match ofBody (after.take length) with
      | .ok frame => .whole frame (after.drop length)
      | .error e => .broken e

/-- The first frame of a stream that has ended, with what follows it; none at its end. -/
def read (stream : Bytes) : Except TransportError (Option (Frame × Bytes)) :=
  match front stream with
  | .whole frame rest => .ok (some (frame, rest))
  | .broken e => .error (.malformed e)
  | .short => if stream.length < lengthWidth then .ok none else .error .closed

theorem length_lt_of_front {input rest : Bytes} {frame : Frame} (h : front input = .whole frame rest) :
    rest.length < input.length := by
  unfold front at h
  split at h
  · cases h
  · dsimp only at h
    split at h
    · cases h
    · split at h
      · cases h
      · split at h
        · cases h
          simp only [List.length_drop, lengthWidth] at *
          omega
        · cases h

theorem length_lt_of_read {stream rest : Bytes} {frame : Frame} (h : read stream = .ok (some (frame, rest))) :
    rest.length < stream.length := by
  unfold read at h
  split at h
  · rename_i hf
    cases h
    exact length_lt_of_front hf
  · cases h
  · split at h <;> cases h

/-- All frames of a stream that has ended, and the error it ends with. -/
def readAll (stream : Bytes) : List Frame × Option TransportError :=
  match _h : read stream with
  | .ok none => ([], none)
  | .error e => ([], some e)
  | .ok (some (frame, rest)) =>
    let (frames, stop) := readAll rest
    (frame :: frames, stop)
termination_by stream.length
decreasing_by exact length_lt_of_read _h

/-- All frames at the front of the bytes received so far, and what is left: bytes that may become a
frame, or the reason why they cannot. -/
def collect (input : Bytes) : List Frame × Except WireError Bytes :=
  match _h : front input with
  | .short => ([], .ok input)
  | .broken e => ([], .error e)
  | .whole frame rest =>
    let (frames, left) := collect rest
    (frame :: frames, left)
termination_by input.length
decreasing_by exact length_lt_of_front _h

end Frame
end DescriptorExchange
