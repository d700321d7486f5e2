import DescriptorExchange.Proofs.Wire.Reader
import DescriptorExchange.Record.StateSet
import Mathlib.Tactic.Common

/-!
Possible states are read back as they were written. The bit field is as short as its highest state
allows, so a longer one that means the same is accepted but never written.
-/
namespace DescriptorExchange

open Reader

theorem States.width_le (s : States) : s.width ≤ PossibleStates.maxWidth := by
  have hlog : s.toNat.log2 < 256 := by
    rcases eq_or_ne s.toNat 0 with hzero | hnonzero
    · simp [hzero]
    · exact (Nat.log2_lt hnonzero).mpr s.isLt
  unfold width PossibleStates.maxWidth
  omega

theorem States.toNat_lt (s : States) : s.toNat < Nat.pow 256 s.width :=
  calc s.toNat < 2 ^ (s.toNat.log2 + 1) := Nat.lt_log2_self
    _ ≤ 2 ^ (8 * s.width) := Nat.pow_le_pow_right Nat.two_pos (by unfold width; omega)
    _ = Nat.pow 256 s.width := Nat.pow_mul 2 8 s.width

theorem flagByte_ne_zero (flag : Bool) : decide (flagByte flag ≠ 0) = flag := by
  cases flag <;> rfl

namespace PossibleStates

variable {field : String} {input rest : Bytes} {blocks : List PossibleStates}

theorem reader_encode (p : PossibleStates) (rest : Bytes) :
    reader (p.encode ++ rest) = .ok (p, rest) := by
  have hwidth := p.states.width_le
  have hsize : (UInt8.ofNat p.states.width).toNat = p.states.width :=
    UInt8.toNat_ofNat_of_lt' (Nat.lt_of_le_of_lt hwidth (by decide))
  have hvalid : ¬ (p.states.width = 0 ∨ maxWidth < p.states.width) :=
    not_or.mpr ⟨Nat.succ_ne_zero _, Nat.not_lt.mpr hwidth⟩
  have hencode : p.encode ++ rest = word16 p.setId ++ (UInt8.ofNat p.states.width ::
      (littleEndian p.states.width p.states.toNat ++ rest)) := by
    simp [encode]
  rw [hencode]
  refine bind_eq_ok.mpr ⟨p.setId, _, word16_eq_ok.mpr rfl, ?_⟩
  refine bind_eq_ok.mpr ⟨_, _, byte_eq_ok.mpr rfl, ?_⟩
  rw [hsize, if_neg hvalid]
  refine bind_eq_ok.mpr ⟨p.states.toNat, rest, number_eq_ok.mpr ⟨p.states.toNat_lt, rfl⟩, ?_⟩
  exact pure_eq_ok.mpr ⟨by rw [BitVec.ofNat_toNat, BitVec.setWidth_eq], rfl⟩

theorem length_encode_le (p : PossibleStates) : p.encode.length ≤ 35 := by
  have hwidth := p.states.width_le
  simp only [encode, List.length_append, length_word16, List.length_singleton,
    length_littleEndian]
  unfold maxWidth at hwidth
  omega

theorem listReader_encodeList (hcount : blocks.length ≤ 255) (rest : Bytes) :
    listReader field (encodeList blocks ++ rest) = .ok (blocks, rest) := by
  have hlength : (UInt8.ofNat blocks.length).toNat = blocks.length :=
    UInt8.toNat_ofNat_of_lt' (Nat.lt_succ_of_le hcount)
  refine bind_eq_ok.mpr ⟨UInt8.ofNat blocks.length, _, byte_eq_ok.mpr rfl, ?_⟩
  rw [hlength]
  exact items_append (fun p _ => p.reader_encode) rest

theorem length_of_listReader (h : listReader field input = .ok (blocks, rest)) :
    blocks.length ≤ 255 := by
  obtain ⟨count, _, -, h⟩ := bind_eq_ok.mp h
  have hbyte := count.toNat_lt
  rw [(of_items_eq_ok h).1]
  omega

theorem length_encodeList_le (blocks : List PossibleStates) :
    (encodeList blocks).length ≤ 1 + 35 * blocks.length := by
  have hblocks : (blocks.flatMap encode).length ≤ 35 * blocks.length := by
    induction blocks with
    | nil => exact Nat.le_refl _
    | cons p blocks ih =>
      have hp := p.length_encode_le
      simp only [List.flatMap_cons, List.length_append, List.length_cons]
      omega
  simp only [encodeList, List.length_append, List.length_singleton]
  omega

end PossibleStates
end DescriptorExchange
