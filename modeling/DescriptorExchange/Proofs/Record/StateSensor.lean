import DescriptorExchange.Proofs.Record.Association
import DescriptorExchange.Proofs.Record.StateSet
import DescriptorExchange.Record.StateSensor

/-!
State sensor records byte by byte. A record can be read just if it is laid out as one, and a state is
possible at an offset just if its bit is set in the bit field of the block there.
-/
namespace DescriptorExchange

/-- Bits of a little-endian number are the bits of its bytes. -/
theorem testBit_ofLittleEndian (bs : Bytes) (i : Nat) : (ofLittleEndian bs).testBit i = true ↔
    ∃ b, bs[i / 8]? = some b ∧ b.toNat.testBit (i % 8) = true := by
  induction bs generalizing i with
  | nil => simp [ofLittleEndian]
  | cons b rest ih =>
    have hb : b.toNat < 2 ^ 8 := b.toNat_lt
    have hsplit : (ofLittleEndian (b :: rest)).testBit i =
        if i < 8 then b.toNat.testBit i else (ofLittleEndian rest).testBit (i - 8) := by
      rw [← Nat.testBit_two_pow_mul_add (ofLittleEndian rest) hb i, ofLittleEndian, Nat.add_comm]
    rw [hsplit]
    split_ifs with hlow
    · simp [Nat.div_eq_of_lt hlow, Nat.mod_eq_of_lt hlow]
    · obtain ⟨j, rfl⟩ := Nat.exists_eq_add_of_le' (Nat.le_of_not_lt hlow)
      simp [ih]

/-- A block as it stands in a record: a state set and a bit field of up to thirty-two bytes. -/
structure StateBlock where
  setId : UInt16
  bits : Bytes
  nonempty : 0 < bits.length
  fits : bits.length ≤ PossibleStates.maxWidth

namespace StateBlock

variable {input rest : Bytes} {p : PossibleStates}

def bytes (b : StateBlock) : Bytes := word16 b.setId ++ UInt8.ofNat b.bits.length :: b.bits

/-- The bit field has a bit for the state, and the bit is set. -/
def Shows (b : StateBlock) (state : UInt8) : Prop :=
  ∃ byte, b.bits[state.toNat / 8]? = some byte ∧ byte.toNat.testBit (state.toNat % 8) = true

def possible (b : StateBlock) : PossibleStates := ⟨b.setId, BitVec.ofNat 256 (ofLittleEndian b.bits)⟩

theorem contains_possible (b : StateBlock) (state : UInt8) :
    b.possible.states.contains state = true ↔ b.Shows state := by
  have hstate : state.toNat < 256 := state.toNat_lt
  rw [Shows, ← testBit_ofLittleEndian, possible, States.contains, BitVec.getLsbD_ofNat,
    decide_eq_true hstate, Bool.true_and]

/-- A block is read just if it stands at the front of the input. -/
theorem reader_eq_ok : PossibleStates.reader input = .ok (p, rest) ↔
    ∃ b : StateBlock, input = b.bytes ++ rest ∧ b.possible = p := by
  constructor
  · intro h
    obtain ⟨setId, _, hset, hsized⟩ := Reader.bind_eq_ok.mp h
    obtain ⟨size, _, hsize, hchecked⟩ := Reader.bind_eq_ok.mp hsized
    obtain rfl := Reader.word16_eq_ok.mp hset
    obtain rfl := Reader.byte_eq_ok.mp hsize
    by_cases hinvalid : size.toNat = 0 ∨ PossibleStates.maxWidth < size.toNat
    · rw [if_pos hinvalid] at hchecked
      obtain ⟨_, _, hthrow, -⟩ := Reader.bind_eq_ok.mp hchecked
      cases hthrow
    · rw [if_neg hinvalid] at hchecked
      obtain ⟨hnonzero, hfits⟩ := not_or.mp hinvalid
      obtain ⟨n, _, hbits, hblock⟩ := Reader.bind_eq_ok.mp hchecked
      obtain ⟨hn, rfl⟩ := Reader.number_eq_ok.mp hbits
      obtain ⟨rfl, rfl⟩ := Reader.pure_eq_ok.mp hblock
      refine ⟨⟨setId, littleEndian size.toNat n, by simpa [Nat.pos_iff_ne_zero] using hnonzero,
        by simpa using hfits⟩, by simp [bytes], ?_⟩
      simp only [possible, ofLittleEndian_littleEndian hn]
  · rintro ⟨b, rfl, rfl⟩
    have hsize : (UInt8.ofNat b.bits.length).toNat = b.bits.length :=
      UInt8.toNat_ofNat_of_lt' (Nat.lt_of_le_of_lt b.fits (by decide))
    have hvalid : ¬ (b.bits.length = 0 ∨ PossibleStates.maxWidth < b.bits.length) :=
      not_or.mpr ⟨Nat.ne_of_gt b.nonempty, Nat.not_lt.mpr b.fits⟩
    rw [bytes, List.append_assoc]
    refine Reader.bind_eq_ok.mpr ⟨b.setId, _, Reader.word16_eq_ok.mpr rfl, ?_⟩
    refine Reader.bind_eq_ok.mpr ⟨_, _, Reader.byte_eq_ok.mpr rfl, ?_⟩
    rw [hsize, if_neg hvalid]
    refine Reader.bind_eq_ok.mpr ⟨ofLittleEndian b.bits, rest, Reader.number_eq_ok.mpr
      ⟨ofLittleEndian_lt b.bits, by rw [littleEndian_ofLittleEndian]; rfl⟩, rfl⟩

/-- A count of blocks and the blocks. -/
theorem listReader_eq_ok {field : String} {ps : List PossibleStates} :
    PossibleStates.listReader field input = .ok (ps, rest) ↔
      ∃ blocks : List StateBlock, blocks.length ≤ 255 ∧
        input = UInt8.ofNat blocks.length :: (blocks.flatMap bytes ++ rest) ∧
        blocks.map possible = ps := by
  simp only [PossibleStates.listReader, Reader.bind_eq_ok, Reader.byte_eq_ok,
    Reader.items_eq_ok_of_shapes reader_eq_ok]
  constructor
  · rintro ⟨count, _, rfl, blocks, hlen, rfl, rfl⟩
    have hcount := count.toNat_lt
    exact ⟨blocks, by omega, by rw [hlen, UInt8.ofNat_toNat], rfl⟩
  · rintro ⟨blocks, hlen, rfl, rfl⟩
    exact ⟨_, _, rfl, blocks, (UInt8.toNat_ofNat_of_lt' (Nat.lt_succ_of_le hlen)).symm, rfl, rfl⟩

end StateBlock

/-- What the body of a state sensor record is made of. -/
structure SensorBody where
  terminusHandle : UInt16
  sensorId : UInt16
  entity : Entity
  init : UInt8
  names : UInt8
  /-- One for each offset. -/
  blocks : List StateBlock
  /-- Bytes behind the blocks, which nothing reads. -/
  unread : Bytes
  counted : blocks.length ≤ 255

namespace SensorBody

def bytes (b : SensorBody) : Bytes :=
  word16 b.terminusHandle ++ (word16 b.sensorId ++ (b.entity.encode ++ (b.init :: b.names ::
    UInt8.ofNat b.blocks.length :: (b.blocks.flatMap StateBlock.bytes ++ b.unread))))

def sensor (b : SensorBody) : StateSensor :=
  ⟨b.terminusHandle, b.sensorId, b.entity, b.init, b.names ≠ 0, b.blocks.map StateBlock.possible⟩

theorem reader_eq_ok {input rest : Bytes} {s : StateSensor} :
    StateSensor.reader input = .ok (s, rest) ↔
      ∃ b : SensorBody, input = b.bytes ∧ b.unread = rest ∧ b.sensor = s := by
  simp only [StateSensor.reader, Reader.bind_eq_ok, Reader.word16_eq_ok, Entity.reader_eq_ok,
    Reader.byte_eq_ok, StateBlock.listReader_eq_ok, Reader.pure_eq_ok]
  constructor
  · rintro ⟨terminusHandle, _, rfl, sensorId, _, rfl, entity, _, rfl, init, _, rfl, names, _, rfl, _,
      _, ⟨blocks, hlen, rfl, rfl⟩, rfl, rfl⟩
    exact ⟨⟨terminusHandle, sensorId, entity, init, names, blocks, _, hlen⟩, rfl, rfl, rfl⟩
  · rintro ⟨b, rfl, rfl, rfl⟩
    exact ⟨b.terminusHandle, _, rfl, b.sensorId, _, rfl, b.entity, _, rfl, b.init, _, rfl, b.names,
      _, rfl, _, _, ⟨b.blocks, b.counted, rfl, rfl⟩, rfl, rfl⟩

end SensorBody

/-- A whole state sensor record: a header of that type, the body it declares, and what follows. -/
structure SensorRecord where
  header : RecordHeader
  body : SensorBody
  beyond : Bytes
  type : header.type = .stateSensor
  declared : body.bytes.length = header.dataLength.toNat

namespace SensorRecord

def bytes (w : SensorRecord) : Bytes := w.header.encode ++ w.body.bytes ++ w.beyond

/-- A record can be read just if it is laid out as one. -/
theorem decodeRecord_eq_ok {record : Bytes} {header : RecordHeader} {s : StateSensor} :
    decodeRecord StateSensor record = .ok (header, s) ↔
      ∃ w : SensorRecord, record = w.bytes ∧ w.header = header ∧ w.body.sensor = s := by
  rw [DescriptorExchange.decodeRecord_eq_ok]
  constructor
  · rintro ⟨body, rest, hsplit, htype, hbody⟩
    obtain ⟨-, beyond, rfl, hlen⟩ := RecordHeader.split_eq_ok.mp hsplit
    obtain ⟨b, rfl, -, rfl⟩ := SensorBody.reader_eq_ok.mp hbody
    exact ⟨⟨header, b, beyond, htype, hlen⟩, rfl, rfl, rfl⟩
  · rintro ⟨w, rfl, rfl, rfl⟩
    have hsplit : RecordHeader.split w.bytes = .ok (w.header, w.body.bytes) :=
      RecordHeader.split_eq_ok.mpr ⟨by rw [w.type]; rfl, w.beyond, rfl, w.declared⟩
    exact ⟨w.body.bytes, w.body.unread, hsplit, w.type,
      SensorBody.reader_eq_ok.mpr ⟨w.body, rfl, rfl, rfl⟩⟩

end SensorRecord

end DescriptorExchange
