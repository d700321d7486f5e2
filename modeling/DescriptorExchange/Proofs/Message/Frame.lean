import DescriptorExchange.Message.Frame
import DescriptorExchange.Proofs.Wire.Reader
import Mathlib.Tactic.Common

/-!
A frame can be written unless its payload is too long for the length field, and what has been
written is read back, whatever follows it. Only the bits of the header that have no place in it are
lost.
-/
namespace DescriptorExchange

namespace MessageType

/-- A code is written as it was read. -/
@[simp] theorem code_mk (code : UInt8) : (mk code).code = code := by
  unfold mk
  split_ifs <;> simp_all [MessageType.code]

/-- A type is read as it was written, unless it is a named one under its bare code. -/
theorem mk_code_iff {t : MessageType} : mk t.code = t ↔ ∀ code, t = other code → mk code = t := by
  refine ⟨fun h code heq => by rwa [heq] at h ⊢, fun h => ?_⟩
  cases t with
  | other code => exact h code rfl
  | _ => rfl

end MessageType

namespace MessageHeader

open Reader

/-- The header as it arrives: five bits of instance id, and the type for which six bits of code stand. -/
def arrived (h : MessageHeader) : MessageHeader :=
  { h with instanceId := ⟨h.instanceId.value % 32⟩, type := .mk (h.type.code % 64) }

@[simp] theorem length_encode (h : MessageHeader) : h.encode.length = length := rfl

/-- The flags and the instance id do not overlap in the first byte. -/
theorem firstByte (request datagram : Bool) (iid : UInt8) :
    let first := (if request then 128 else 0) + (if datagram then 64 else 0) + iid % 32
    decide (first / 128 = 1) = request ∧ decide (first / 64 % 2 = 1) = datagram ∧
      first % 32 = iid % 32 := by
  have hlt : iid.toNat % 32 < 32 := Nat.mod_lt _ (by decide)
  simp only [← UInt8.toNat_inj, UInt8.toNat_div, UInt8.toNat_mod, UInt8.toNat_add]
  cases request <;> cases datagram <;> simp <;> omega

theorem decode_encode (h : MessageHeader) (payload : Bytes) :
    decode (h.encode ++ payload) = .ok (h.arrived, payload) := by
  obtain ⟨hrequest, hdatagram, hiid⟩ := firstByte h.request h.datagram h.instanceId.value
  have hversion : h.type.code % 64 / 64 = 0 := by
    simp [← UInt8.toNat_inj]
  have htype : h.type.code % 64 % 64 = h.type.code % 64 := by
    simp [← UInt8.toNat_inj]
  refine bind_eq_ok.mpr ⟨_, _, byte_eq_ok.mpr rfl, ?_⟩
  refine bind_eq_ok.mpr ⟨_, _, byte_eq_ok.mpr rfl, ?_⟩
  refine bind_eq_ok.mpr ⟨_, _, byte_eq_ok.mpr rfl, ?_⟩
  simp only [hversion, hrequest, hdatagram, hiid, htype, ne_eq, not_true_eq_false, if_false]
  rfl

end MessageHeader

namespace Frame

variable {f : Frame} {stream : Bytes}

/-- The longest payload that can be written. -/
def maxPayload : Nat := maxBody - minBody

/-- The frame as it arrives. -/
def arrived (f : Frame) : Frame := { f with message.header := f.message.header.arrived }

@[simp] theorem arrived_payload (f : Frame) : f.arrived.message.payload = f.message.payload := rfl

/-- What the length of a frame counts. -/
def body (f : Frame) : Bytes := f.eid.value :: (f.message.header.encode ++ f.message.payload)

theorem length_body (f : Frame) : f.body.length = minBody + f.message.payload.length := by
  simp only [body, List.length_cons, List.length_append, MessageHeader.length_encode, minBody]
  omega

theorem length_body_le_iff : f.body.length ≤ maxBody ↔ f.message.payload.length ≤ maxPayload := by
  have hroom : minBody ≤ maxBody := by decide
  rw [length_body]
  unfold maxPayload
  omega

theorem encode_eq (f : Frame) (hfits : f.message.payload.length ≤ maxPayload) :
    f.encode = .ok (littleEndian lengthWidth f.body.length ++ f.body) := by
  have hmax := length_body_le_iff.mpr hfits
  rw [length_body] at hmax ⊢
  unfold encode
  dsimp only
  rw [if_neg (Nat.not_lt.mpr hmax), body]
  simp only [List.append_assoc, List.cons_append, List.nil_append]

theorem encode_eq_ok_iff : (∃ stream, f.encode = .ok stream) ↔
    f.message.payload.length ≤ maxPayload := by
  refine ⟨fun ⟨stream, h⟩ => ?_, fun hfits => ⟨_, f.encode_eq hfits⟩⟩
  unfold encode at h
  dsimp only at h
  split_ifs at h with hlong
  rw [← length_body_le_iff, length_body]
  exact Nat.not_lt.mp hlong

theorem front_append {body : Bytes} (hmin : minBody ≤ body.length) (hmax : body.length ≤ maxBody)
    (hof : ofBody body = .ok f) (more : Bytes) :
    front (littleEndian lengthWidth body.length ++ (body ++ more)) = .whole f more := by
  have hlength : body.length < Nat.pow 256 lengthWidth := Nat.lt_succ_of_le hmax
  have htake : (littleEndian lengthWidth body.length ++ (body ++ more)).take lengthWidth = _ :=
    List.take_left' (length_littleEndian ..)
  have hdrop : (littleEndian lengthWidth body.length ++ (body ++ more)).drop lengthWidth = _ :=
    List.drop_left' (length_littleEndian ..)
  unfold front
  rw [if_neg (by simp)]
  dsimp only
  rw [htake, hdrop, ofLittleEndian_littleEndian hlength, if_neg (Nat.not_lt.mpr hmin),
    if_neg (by simp), List.take_left, List.drop_left, hof]

/-- A frame is read back from the front of a stream. -/
theorem read_encode (h : f.encode = .ok stream) (more : Bytes) :
    read (stream ++ more) = .ok (some (f.arrived, more)) := by
  have hfits := encode_eq_ok_iff.mp ⟨stream, h⟩
  obtain rfl := Except.ok.inj ((f.encode_eq hfits).symm.trans h)
  have hmin : minBody ≤ f.body.length := f.length_body ▸ Nat.le_add_right ..
  have hof : ofBody f.body = .ok f.arrived := by
    simp only [ofBody, body, List.drop_one, List.tail_cons, MessageHeader.decode_encode]
    rfl
  unfold read
  rw [List.append_assoc, front_append hmin (length_body_le_iff.mpr hfits) hof more]

/-- A frame as it comes out of the stream it is written to, if it can be written. -/
def carry? (f : Frame) : Option Frame :=
  f.encode.toOption.bind fun stream => (Frame.read stream).toOption.join.map Prod.fst

theorem carry?_eq (h : f.message.payload.length ≤ maxPayload) :
    f.carry? = some f.arrived := by
  have hread := read_encode (f.encode_eq h) []
  rw [List.append_nil] at hread
  simp [carry?, f.encode_eq h, hread, Except.toOption]

end Frame
end DescriptorExchange
