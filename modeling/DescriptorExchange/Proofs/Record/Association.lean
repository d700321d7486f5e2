import DescriptorExchange.Proofs.Record.Header
import DescriptorExchange.Record.Association

/-! Association records with at most 255 children are read back as they were written. -/
namespace DescriptorExchange

variable {input rest : Bytes}

theorem Entity.reader_eq_ok {e : Entity} :
    reader input = .ok (e, rest) ↔ input = e.encode ++ rest := by
  simp only [reader, Reader.bind_eq_ok, Reader.word16_eq_ok, Reader.pure_eq_ok]
  constructor
  · rintro ⟨type, _, rfl, number, _, rfl, container, _, rfl, rfl, rfl⟩
    simp [encode]
  · rintro rfl
    exact ⟨e.type, _, by simp [encode], e.number, _, rfl, e.container, _, rfl, rfl, rfl⟩

namespace Association

theorem reader_eq_ok {a : Association} : reader input = .ok (a, rest) ↔
    a.children.length ≤ maxChildren ∧ input = a.encode ++ rest := by
  simp only [reader, Reader.bind_eq_ok, Reader.word16_eq_ok, Reader.byte_eq_ok, Entity.reader_eq_ok,
    Reader.items_eq_ok Entity.reader_eq_ok, Reader.pure_eq_ok]
  constructor
  · rintro ⟨containerId, _, rfl, kind, _, rfl, container, _, rfl, count, _, rfl, children, _,
      ⟨hlen, rfl⟩, rfl, rfl⟩
    have := count.toNat_lt
    refine ⟨by simp only [maxChildren]; omega, ?_⟩
    simp [encode, hlen]
  · rintro ⟨hlen, rfl⟩
    have hcount : (UInt8.ofNat a.children.length).toNat = a.children.length :=
      UInt8.toNat_ofNat_of_lt' (Nat.lt_succ_of_le hlen)
    exact ⟨a.containerId, _, by simp [encode], a.kind, _, rfl, a.container, _, rfl,
      UInt8.ofNat a.children.length, _, rfl, a.children, _, ⟨hcount.symm, rfl⟩, rfl, rfl⟩

theorem length_encode (a : Association) : a.encode.length = 10 + 6 * a.children.length := by
  simp only [encode, List.length_append, List.length_flatMap, length_word16, Entity.length_encode,
    List.length_singleton, List.map_const', List.sum_replicate_nat]
  omega

theorem length_encodeRecord {a : Association} (hlen : a.children.length ≤ maxChildren)
    (k : RecordHandle) : (encodeRecord k a).length < 65536 := by
  have hbody : (RecordBody.encode a).length = 10 + 6 * a.children.length := a.length_encode
  simp only [encodeRecord, encodeRecordAs, List.length_append, RecordHeader.length_encode, hbody,
    RecordHeader.length]
  unfold maxChildren at hlen
  omega

/-- A record that lists no more children than its count can say is read back as it was written. -/
theorem decodeRecord_encodeRecordAs {a : Association} (hlen : a.children.length ≤ maxChildren)
    (k : RecordHandle) (changeNumber : UInt16) :
    decodeRecord Association (encodeRecordAs k changeNumber a) =
      .ok (writtenHeader k changeNumber a, a) := by
  refine DescriptorExchange.decodeRecord_encodeRecordAs ?_ ?_
  · change a.encode.length < 65536
    rw [length_encode]
    unfold maxChildren at hlen
    omega
  · exact reader_eq_ok.mpr ⟨hlen, (List.append_nil _).symm⟩

end Association
end DescriptorExchange
