import DescriptorExchange.Proofs.Wire.Reader
import DescriptorExchange.Record.Header
import Mathlib.Tactic.Common

/-!
Records taken apart: a record that can be read is its header, the body the header declares, and
whatever follows. Overwriting a field of a record leaves everything in front of it and behind it
alone.
-/
namespace DescriptorExchange

namespace RecordType

/-- A code is written as it was read. -/
@[simp] theorem code_mk (code : UInt8) : (mk code).code = code := by
  unfold mk
  split_ifs <;> simp_all [RecordType.code]

/-- A type is read as it was written, unless it is a named one under its bare code. -/
theorem mk_code_iff {t : RecordType} : mk t.code = t ↔ ∀ code, t = other code → mk code = t := by
  refine ⟨fun h code heq => by rwa [heq] at h ⊢, fun h => ?_⟩
  cases t with
  | other code => exact h code rfl
  | _ => rfl

end RecordType

namespace RecordHeader

variable {h : RecordHeader} {record body rest : Bytes}

@[simp] theorem length_encode (h : RecordHeader) :
    h.encode.length = length := by simp [encode, length]

theorem reader_eq_ok : reader record = .ok (h, rest) ↔
    .mk h.type.code = h.type ∧ record = h.encode ++ rest := by
  simp only [reader, Reader.bind_eq_ok, Reader.word32_eq_ok, Reader.byte_eq_ok, Reader.word16_eq_ok,
    Reader.pure_eq_ok]
  constructor
  · rintro ⟨handle, _, rfl, version, _, rfl, type, _, rfl, change, _, rfl, declared, _,
      rfl, rfl, rfl⟩
    simp [encode]
  · rintro ⟨htype, rfl⟩
    exact ⟨h.handle, _, by simp [encode], h.version, _, rfl, h.type.code, _, rfl,
      h.changeNumber, _, rfl,
      h.dataLength, _, rfl, by rw [htype], rfl⟩

theorem decode_eq_ok : decode record = .ok h ↔
    .mk h.type.code = h.type ∧ ∃ rest, record = h.encode ++ rest := by
  simp only [decode, Reader.parse_eq_ok, reader_eq_ok, exists_and_left]

theorem decode_append (htype : .mk h.type.code = h.type) (rest : Bytes) :
    decode (h.encode ++ rest) = .ok h :=
  decode_eq_ok.mpr ⟨htype, rest, rfl⟩

theorem encode_inj {g : RecordHeader} (hg : .mk g.type.code = g.type)
    (hh : .mk h.type.code = h.type) (hgh : g.encode = h.encode) : g = h := by
  have hback := decode_append hg []
  rw [hgh, decode_append hh] at hback
  exact (Except.ok.inj hback).symm

/-- A record splits into a header and a body when they stand at its front and the body is as long
as the header says. -/
theorem split_eq_ok : split record = .ok (h, body) ↔ .mk h.type.code = h.type ∧
    ∃ tail, record = h.encode ++ body ++ tail ∧ body.length = h.dataLength.toNat := by
  unfold split
  cases hd : decode record with
  | error e =>
    simp only [bind, Except.bind, reduceCtorEq, false_iff]
    rintro ⟨htype, tail, rfl, -⟩
    rw [List.append_assoc, decode_append htype] at hd
    simp at hd
  | ok found =>
    obtain ⟨hfound, data, rfl⟩ := decode_eq_ok.mp hd
    have hdrop : (found.encode ++ data).drop length = data := by
      rw [← length_encode found, List.drop_left]
    simp only [bind, Except.bind, hdrop, pure, Except.pure]
    constructor
    · intro hs
      split_ifs at hs with hshort
      obtain ⟨rfl, rfl⟩ := Prod.mk.inj (Except.ok.inj hs)
      refine ⟨hfound, data.drop found.dataLength.toNat, ?_, ?_⟩
      · rw [List.append_assoc, List.take_append_drop]
      · rw [List.length_take]
        omega
    · rintro ⟨htype, tail, heq, hlen⟩
      rw [List.append_assoc] at heq
      obtain ⟨hh, rfl⟩ := List.append_inj heq (by simp)
      obtain rfl := encode_inj hfound htype hh
      rw [if_neg (by rw [List.length_append]; omega), ← hlen, List.take_left]

end RecordHeader

section overwrite

variable {field : String} {front old value back record : Bytes}

theorem overwrite_append (hlen : value.length = old.length) :
    overwrite field front.length value (front ++ old ++ back) = .ok (front ++ value ++ back) := by
  unfold overwrite
  rw [if_neg (by simp only [List.length_append]; omega), hlen, ← List.length_append, List.drop_left,
    List.append_assoc front, List.take_left]

theorem setRecordHandle_encode (k : RecordHandle) (h : RecordHeader) (more : Bytes) :
    setRecordHandle k (h.encode ++ more) = .ok ({ h with handle := k }.encode ++ more) := by
  let back := [h.version, h.type.code] ++ word16 h.changeNumber ++ word16 h.dataLength ++ more
  have hset : overwrite "pdr.record_handle" ([] : Bytes).length (word32 k)
      ([] ++ word32 h.handle ++ back) =
      .ok ([] ++ word32 k ++ back) := overwrite_append (by simp)
  simpa [back, setRecordHandle, RecordHeader.encode] using hset

/-- A record that splits takes another handle, splits as before under it, and takes its own again. -/
theorem setRecordHandle_of_split {header : RecordHeader} {body : Bytes}
    (h : RecordHeader.split record = .ok (header, body)) (k : RecordHandle) :
    ∃ patched, setRecordHandle k record = .ok patched ∧
      RecordHeader.split patched = .ok ({ header with handle := k }, body) ∧
      setRecordHandle header.handle patched = .ok record := by
  obtain ⟨htype, tail, rfl, hlen⟩ := RecordHeader.split_eq_ok.mp h
  have hset := setRecordHandle_encode k header (body ++ tail)
  have hback := setRecordHandle_encode header.handle { header with handle := k } (body ++ tail)
  simp only [← List.append_assoc] at hset hback
  exact ⟨_, hset, RecordHeader.split_eq_ok.mpr ⟨htype, tail, rfl, hlen⟩, hback⟩

theorem overwrite_eq_ok {offset : Nat} {patched : Bytes}
    (h : overwrite field offset value record = .ok patched) :
    ∃ front old back, front.length = offset ∧ old.length = value.length ∧
      record = front ++ old ++ back ∧ patched = front ++ value ++ back := by
  unfold overwrite at h
  dsimp only at h
  split_ifs at h with hshort
  refine ⟨record.take offset, (record.drop offset).take value.length,
    record.drop (offset + value.length), ?_, ?_, ?_, (Except.ok.inj h).symm⟩
  · rw [List.length_take]
    omega
  · rw [List.length_take, List.length_drop]
    omega
  · rw [List.append_assoc, ← List.drop_drop, List.take_append_drop, List.take_append_drop]

theorem length_overwrite {offset : Nat} {patched : Bytes}
    (h : overwrite field offset value record = .ok patched) : patched.length = record.length := by
  obtain ⟨front, old, back, -, hlen, rfl, rfl⟩ := overwrite_eq_ok h
  simp only [List.length_append, hlen]

/-- Overwriting a field leaves the bytes outside it alone. -/
theorem getElem?_overwrite {offset : Nat} {patched : Bytes}
    (h : overwrite field offset value record = .ok patched) {i : Nat}
    (hi : i < offset ∨ offset + value.length ≤ i) : patched[i]? = record[i]? := by
  obtain ⟨front, old, back, rfl, hlen, rfl, rfl⟩ := overwrite_eq_ok h
  rcases hi with hi | hi
  · have hlt : i < (front ++ value).length := by
      rw [List.length_append]
      omega
    have hlt' : i < (front ++ old).length := by
      rw [List.length_append]
      omega
    rw [List.getElem?_append_left hlt, List.getElem?_append_left hlt', List.getElem?_append_left hi,
      List.getElem?_append_left hi]
  · have hle : (front ++ value).length ≤ i := by rwa [List.length_append]
    have hle' : (front ++ old).length ≤ i := by rwa [List.length_append, hlen]
    rw [List.getElem?_append_right hle, List.getElem?_append_right hle', List.length_append,
      List.length_append, hlen]

/-- Overwriting a field behind the header leaves the header alone. -/
theorem decode_overwrite {offset : Nat} {patched : Bytes} {header : RecordHeader}
    (hoffset : RecordHeader.length ≤ offset)
    (h : overwrite field offset value record = .ok patched)
    (hdecode : RecordHeader.decode record = .ok header) : RecordHeader.decode patched = .ok header := by
  obtain ⟨front, old, back, hfront, -, rfl, rfl⟩ := overwrite_eq_ok h
  obtain ⟨htype, rest, hrest⟩ := RecordHeader.decode_eq_ok.mp hdecode
  have hle : header.encode.length ≤ front.length := by
    rw [RecordHeader.length_encode, hfront]
    exact hoffset
  have hheader : header.encode <+: front ++ old ++ back := ⟨rest, hrest.symm⟩
  have hbefore : front <+: front ++ old ++ back := ⟨old ++ back, by rw [List.append_assoc]⟩
  obtain ⟨more, rfl⟩ := List.prefix_of_prefix_length_le hheader hbefore hle
  rw [List.append_assoc, List.append_assoc]
  exact RecordHeader.decode_append htype _

end overwrite

section body

variable {α : Type} [RecordBody α]

/-- A record is read as a typed one when it has the type, and the body it declares begins with the
encoding of the value. -/
theorem decodeRecord_eq_ok {record : Bytes} {header : RecordHeader} {value : α} :
    decodeRecord α record = .ok (header, value) ↔
      ∃ body rest, RecordHeader.split record = .ok (header, body) ∧
      header.type = RecordBody.type α ∧
        RecordBody.reader body = .ok (value, rest) := by
  unfold decodeRecord
  cases hs : RecordHeader.split record with
  | error e => simp [bind, Except.bind]
  | ok split =>
    obtain ⟨found, body⟩ := split
    by_cases htype : found.type = RecordBody.type α
    · simp only [bind, Except.bind, ne_eq, htype, not_true_eq_false, if_false, pure, Except.pure]
      cases hp : RecordBody.reader.parse (α := α) body with
      | error e =>
        simp only [reduceCtorEq, Except.ok.injEq, Prod.mk.injEq, false_iff]
        rintro ⟨_, rest, ⟨rfl, rfl⟩, -, hr⟩
        simp [Reader.parse_eq_ok.mpr ⟨rest, hr⟩] at hp
      | ok found' =>
        simp only [Except.ok.injEq, Prod.mk.injEq]
        constructor
        · rintro ⟨rfl, rfl⟩
          obtain ⟨rest, hr⟩ := Reader.parse_eq_ok.mp hp
          exact ⟨body, rest, ⟨rfl, rfl⟩, htype, hr⟩
        · rintro ⟨_, rest, ⟨rfl, rfl⟩, -, hr⟩
          exact ⟨rfl, Except.ok.inj (hp.symm.trans (Reader.parse_eq_ok.mpr ⟨rest, hr⟩))⟩
    · simp only [bind, Except.bind, ne_eq, htype, not_false_eq_true, if_true, throw, throwThe,
        MonadExceptOf.throw, reduceCtorEq, Except.ok.injEq, Prod.mk.injEq, false_iff]
      rintro ⟨_, _, ⟨rfl, rfl⟩, ht, -⟩
      exact htype ht

/-- The header a record is written with. -/
def writtenHeader (k : RecordHandle) (changeNumber : UInt16) (value : α) : RecordHeader :=
  { handle := k, version := RecordHeader.currentVersion, type := RecordBody.type α, changeNumber
    dataLength := UInt16.ofNat (RecordBody.encode value).length }

theorem encodeRecordAs_eq (k : RecordHandle) (changeNumber : UInt16) (value : α) :
    encodeRecordAs k changeNumber value =
      (writtenHeader k changeNumber value).encode ++ RecordBody.encode value := rfl

/-- A record whose body fits the length field is read back as it was written. -/
theorem decodeRecord_encodeRecordAs {k : RecordHandle} {changeNumber : UInt16} {value : α}
    (hfits : (RecordBody.encode value).length < 65536)
    (hbody : RecordBody.reader (RecordBody.encode value) = .ok (value, [])) :
    decodeRecord α (encodeRecordAs k changeNumber value) =
      .ok (writtenHeader k changeNumber value, value) := by
  refine decodeRecord_eq_ok.mpr ⟨RecordBody.encode value, [], ?_, rfl, hbody⟩
  refine RecordHeader.split_eq_ok.mpr ⟨RecordBody.mk_code_type, [], ?_, ?_⟩
  · rw [encodeRecordAs_eq, List.append_nil]
  · exact (UInt16.toNat_ofNat_of_lt' hfits).symm

/-- A record that can be read says the same under another handle. -/
theorem decodeRecord_setRecordHandle {k : RecordHandle} {record stored : Bytes}
    (hset : setRecordHandle k record = .ok stored) {header : RecordHeader} {value : α}
    (h : decodeRecord α record = .ok (header, value)) :
    decodeRecord α stored = .ok ({ header with handle := k }, value) := by
  obtain ⟨body, rest, hsplit, htype, hbody⟩ := decodeRecord_eq_ok.mp h
  obtain ⟨patched, hpatched, hagain, -⟩ := setRecordHandle_of_split hsplit k
  obtain rfl := Except.ok.inj (hset.symm.trans hpatched)
  exact decodeRecord_eq_ok.mpr ⟨body, rest, hagain, htype, hbody⟩

theorem setRecordHandle_encodeRecordAs (k own : RecordHandle) (changeNumber : UInt16) (value : α) :
    setRecordHandle k (encodeRecordAs own changeNumber value) =
      .ok (encodeRecordAs k changeNumber value) :=
  setRecordHandle_encode k (writtenHeader own changeNumber value) (RecordBody.encode value)

end body

end DescriptorExchange
