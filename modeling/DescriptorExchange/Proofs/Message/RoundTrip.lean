import DescriptorExchange.Message.PlatformEvent
import DescriptorExchange.Message.SensorEvent
import DescriptorExchange.Message.SensorReadings
import DescriptorExchange.Proofs.Message.Frame
import DescriptorExchange.Proofs.Message.RecordTransfer
import DescriptorExchange.Proofs.Message.RepositoryChange

/-!
Message bodies survive being passed on: what can be read can be written, and reads the same then. A
body with a list too long for its count is refused, never cut short.
-/
namespace DescriptorExchange

open Reader

/-- Whatever is read can be written, and is read again as what it was. -/
def Rewritable {α : Type} (decode : Bytes → Except WireError α)
    (encode : α → Except WireError Bytes) : Prop :=
  ∀ body v, decode body = .ok v → ∃ again, encode v = .ok again ∧ decode again = .ok v

section total

variable {α : Type} {decode : Bytes → Except WireError α} {encode : α → Bytes}

theorem Rewritable.of_carried (Carried : α → Prop)
    (hdecode : ∀ body v, decode body = .ok v → Carried v)
    (hencode : ∀ v, Carried v → decode (encode v) = .ok v) :
    Rewritable decode fun v => .ok (encode v) :=
  fun body v h => ⟨encode v, rfl, hencode v (hdecode body v h)⟩

theorem Rewritable.of_total (hencode : ∀ v, decode (encode v) = .ok v) :
    Rewritable decode fun v => .ok (encode v) :=
  of_carried (fun _ => True) (fun _ _ _ => trivial) fun v _ => hencode v

end total

namespace MessageHeader

/-- A header that has been read has nothing to lose. -/
theorem arrived_of_decode {message payload : Bytes} {h : MessageHeader}
    (hdecode : decode message = .ok (h, payload)) : h.arrived = h := by
  change reader message = _ at hdecode
  simp only [reader, bind_eq_ok] at hdecode
  obtain ⟨first, _, -, second, _, -, command, _, -, hdecode⟩ := hdecode
  split_ifs at hdecode with hversion
  · cases hdecode
  · obtain ⟨rfl, -⟩ := pure_eq_ok.mp hdecode
    have hiid : first % 32 % 32 = first % 32 := by simp [← UInt8.toNat_inj]
    have htype : second % 64 % 64 = second % 64 := by simp [← UInt8.toNat_inj]
    simp only [arrived, hiid, MessageType.code_mk, htype]

end MessageHeader

namespace EventClass

/-- A code is written as it was read. -/
@[simp] theorem code_mk (code : UInt8) : (mk code).code = code := by
  unfold mk
  split_ifs <;> simp_all [EventClass.code]

/-- A class is read as it was written, unless it is a named one under its bare code. -/
theorem mk_code_iff {c : EventClass} : mk c.code = c ↔ ∀ code, c = other code → mk code = c := by
  refine ⟨fun h code heq => by rwa [heq] at h ⊢, fun h => ?_⟩
  cases c with
  | other code => exact h code rfl
  | _ => rfl

end EventClass

namespace PlatformEvent

theorem decode_encode {e : PlatformEvent} (hclass : .mk e.eventClass.code = e.eventClass) :
    decode e.encode = .ok e := by
  refine parse_eq_ok.mpr ⟨[], bind_eq_ok.mpr ⟨e.formatVersion, _, byte_eq_ok.mpr rfl, ?_⟩⟩
  refine bind_eq_ok.mpr ⟨_, _, byte_eq_ok.mpr rfl, ?_⟩
  refine bind_eq_ok.mpr ⟨_, _, byte_eq_ok.mpr rfl, ?_⟩
  refine bind_eq_ok.mpr ⟨e.data, [], rfl, ?_⟩
  rw [hclass]
  rfl

theorem mk_code_of_decode {body : Bytes} {e : PlatformEvent} (h : decode body = .ok e) :
    .mk e.eventClass.code = e.eventClass := by
  simp only [decode, parse_eq_ok, reader, bind_eq_ok, pure_eq_ok] at h
  obtain ⟨_, _, _, -, _, _, -, eventClass, _, -, _, _, -, rfl, -⟩ := h
  exact congrArg EventClass.mk (EventClass.code_mk eventClass)

end PlatformEvent

namespace EventAnswer

/-- The status of a refusal is not sent, and zero where it arrives. -/
def Carried (a : EventAnswer) : Prop := a.completion.isSuccess ∨ a.status = 0

theorem decode_encode {a : EventAnswer} (h : a.Carried) : decode a.encode = .ok a := by
  obtain ⟨completion, status⟩ := a
  by_cases hcode : completion.isSuccess
  · have hencode : encode ⟨completion, status⟩ = [completion.value, status] := if_pos hcode
    rw [hencode]
    refine parse_eq_ok.mpr ⟨[], bind_eq_ok.mpr ⟨_, _, byte_eq_ok.mpr rfl, ?_⟩⟩
    rw [if_pos hcode]
    exact bind_eq_ok.mpr ⟨status, [], byte_eq_ok.mpr rfl, rfl⟩
  · obtain rfl : status = 0 := h.resolve_left hcode
    have hencode : encode ⟨completion, 0⟩ = [completion.value] := if_neg hcode
    rw [hencode]
    refine parse_eq_ok.mpr ⟨[], bind_eq_ok.mpr ⟨_, _, byte_eq_ok.mpr rfl, ?_⟩⟩
    rw [if_neg hcode]
    rfl

theorem carried_of_decode {body : Bytes} {a : EventAnswer} (h : decode body = .ok a) :
    a.Carried := by
  simp only [decode, parse_eq_ok, reader, bind_eq_ok] at h
  obtain ⟨_, completion, _, -, h⟩ := h
  split_ifs at h with hcode
  · obtain ⟨status, _, -, h⟩ := bind_eq_ok.mp h
    obtain ⟨rfl, -⟩ := pure_eq_ok.mp h
    exact .inl hcode
  · obtain ⟨rfl, -⟩ := pure_eq_ok.mp h
    exact .inr rfl

end EventAnswer

namespace SensorEvent

/-- The data of another event is not labelled as a change of state. -/
def Carried (e : SensorEvent) : Prop :=
  ∀ eventClass raw, e.data = .other eventClass raw → eventClass ≠ stateChangeClass

theorem decode_encode {e : SensorEvent} (h : e.Carried) : decode e.encode = .ok e := by
  obtain ⟨sensorId, data⟩ := e
  cases data with
  | stateChange offset state previous =>
    refine parse_eq_ok.mpr ⟨[], bind_eq_ok.mpr ⟨sensorId, _, word16_eq_ok.mpr rfl, ?_⟩⟩
    refine bind_eq_ok.mpr ⟨stateChangeClass, _, byte_eq_ok.mpr rfl, ?_⟩
    rw [if_pos rfl]
    refine bind_eq_ok.mpr ⟨offset, _, byte_eq_ok.mpr rfl, ?_⟩
    refine bind_eq_ok.mpr ⟨state, _, byte_eq_ok.mpr rfl, ?_⟩
    exact bind_eq_ok.mpr ⟨previous, [], byte_eq_ok.mpr rfl, rfl⟩
  | other eventClass raw =>
    refine parse_eq_ok.mpr ⟨[], bind_eq_ok.mpr ⟨sensorId, _, word16_eq_ok.mpr rfl, ?_⟩⟩
    refine bind_eq_ok.mpr ⟨eventClass, _, byte_eq_ok.mpr rfl, ?_⟩
    rw [if_neg (h eventClass raw rfl)]
    exact bind_eq_ok.mpr ⟨raw, [], rfl, rfl⟩

theorem carried_of_decode {body : Bytes} {e : SensorEvent} (h : decode body = .ok e) :
    e.Carried := by
  simp only [decode, parse_eq_ok, reader, bind_eq_ok] at h
  obtain ⟨_, sensorId, _, -, eventClass, _, -, h⟩ := h
  split_ifs at h with hclass
  · simp only [bind_eq_ok, pure_eq_ok] at h
    obtain ⟨_, _, -, _, _, -, _, _, -, rfl, -⟩ := h
    simp [Carried]
  · obtain ⟨raw, _, -, h⟩ := bind_eq_ok.mp h
    obtain ⟨rfl, -⟩ := pure_eq_ok.mp h
    rintro _ _ ⟨⟩
    exact hclass

end SensorEvent

theorem ReadingsRequest.decode_encode (r : ReadingsRequest) : decode r.encode = .ok r := by
  refine parse_eq_ok.mpr ⟨[], bind_eq_ok.mpr ⟨r.sensorId, _, word16_eq_ok.mpr rfl, ?_⟩⟩
  refine bind_eq_ok.mpr ⟨r.rearm, _, byte_eq_ok.mpr rfl, ?_⟩
  exact bind_eq_ok.mpr ⟨0, [], byte_eq_ok.mpr rfl, rfl⟩

theorem Reading.reader_encode (r : Reading) (rest : Bytes) :
    reader (r.encode ++ rest) = .ok (r, rest) := by
  refine bind_eq_ok.mpr ⟨r.operational, _, byte_eq_ok.mpr rfl, ?_⟩
  refine bind_eq_ok.mpr ⟨r.present, _, byte_eq_ok.mpr rfl, ?_⟩
  refine bind_eq_ok.mpr ⟨r.previous, _, byte_eq_ok.mpr rfl, ?_⟩
  exact bind_eq_ok.mpr ⟨r.event, _, byte_eq_ok.mpr rfl, rfl⟩

namespace ReadingsResponse

variable {r : ReadingsResponse}

theorem encode_of_many (hsuccess : r.completion.isSuccess) (hmany : 255 < r.readings.length) :
    r.encode = .error (tooMany "state_readings.composite_count" r.readings.length) := by
  unfold encode
  rw [if_pos hsuccess, countByte_of_many hmany]
  rfl

theorem decode_encode (hsuccess : r.completion.isSuccess) (hfits : r.readings.length ≤ 255) :
    ∃ body, r.encode = .ok body ∧ decode body = .ok r := by
  have hcount : (UInt8.ofNat r.readings.length).toNat = r.readings.length :=
    UInt8.toNat_ofNat_of_lt' (Nat.lt_succ_of_le hfits)
  have hencode : r.encode = .ok (r.completion.value :: UInt8.ofNat r.readings.length ::
      (r.readings.flatMap Reading.encode ++ [])) := by
    unfold encode
    rw [if_pos hsuccess, countByte_eq_ok.mpr ⟨hfits, rfl⟩, List.append_nil]
    rfl
  refine ⟨_, hencode, parse_eq_ok.mpr ⟨[], bind_eq_ok.mpr ⟨_, _, byte_eq_ok.mpr rfl, ?_⟩⟩⟩
  rw [if_pos hsuccess]
  refine bind_eq_ok.mpr ⟨_, _, byte_eq_ok.mpr rfl, bind_eq_ok.mpr ⟨r.readings, [], ?_, rfl⟩⟩
  rw [hcount]
  exact items_append (fun reading _ => reading.reader_encode) []

theorem rewritable : Rewritable decode encode := by
  intro body r h
  simp only [decode, parse_eq_ok, reader, bind_eq_ok] at h
  obtain ⟨_, completion, _, -, h⟩ := h
  split_ifs at h with hcode
  · simp only [bind_eq_ok, pure_eq_ok] at h
    obtain ⟨count, _, -, readings, _, hreadings, rfl, -⟩ := h
    have hbyte := count.toNat_lt
    have hlength := (of_items_eq_ok hreadings).1
    exact decode_encode hcode (by change readings.length ≤ 255; omega)
  · obtain ⟨rfl, -⟩ := pure_eq_ok.mp h
    refine ⟨[completion], if_neg hcode, ?_⟩
    refine parse_eq_ok.mpr ⟨[], bind_eq_ok.mpr ⟨completion, [], byte_eq_ok.mpr rfl, ?_⟩⟩
    rw [if_neg hcode]
    rfl

end ReadingsResponse

namespace ChangeRecord

variable {r : ChangeRecord} {input rest : Bytes}

theorem reader_bytes (h : r.entries.length ≤ 255) (rest : Bytes) :
    reader (r.bytes ++ rest) = .ok (r, rest) := by
  have hcount : (UInt8.ofNat r.entries.length).toNat = r.entries.length :=
    UInt8.toNat_ofNat_of_lt' (Nat.lt_succ_of_le h)
  have hoperation : ChangeOperation.ofCode r.operation.code = .ok r.operation := by
    cases r.operation <;> rfl
  refine bind_eq_ok.mpr ⟨_, _, byte_eq_ok.mpr rfl, ?_⟩
  refine bind_eq_ok.mpr ⟨_, _, lift_eq_ok.mpr ⟨hoperation, rfl⟩, ?_⟩
  refine bind_eq_ok.mpr ⟨_, _, byte_eq_ok.mpr rfl, bind_eq_ok.mpr ⟨r.entries, rest, ?_, rfl⟩⟩
  exact (items_eq_ok word32_eq_ok).mpr ⟨hcount.symm, rfl⟩

theorem length_of_reader (h : reader input = .ok (r, rest)) : r.entries.length ≤ 255 := by
  simp only [reader, bind_eq_ok, pure_eq_ok] at h
  obtain ⟨_, _, -, _, _, -, count, _, -, entries, _, hentries, rfl, -⟩ := h
  have hbyte := count.toNat_lt
  have hlength := (of_items_eq_ok hentries).1
  change entries.length ≤ 255
  omega

end ChangeRecord

namespace RepositoryChange

variable {c : RepositoryChange} {data : Bytes}

theorem decode_encode (hentries : ∀ r ∈ c.records, r.entries.length ≤ 255)
    (hcount : c.records.length ≤ 255) : ∃ data, c.encode = .ok data ∧ decode data = .ok c := by
  have hlength : (UInt8.ofNat c.records.length).toNat = c.records.length :=
    UInt8.toNat_ofNat_of_lt' (Nat.lt_succ_of_le hcount)
  have hformat : ChangeFormat.ofCode c.format.code = .ok c.format := by
    cases c.format <;> rfl
  refine ⟨_, encode_eq hentries hcount, parse_eq_ok.mpr ⟨[], ?_⟩⟩
  rw [← List.append_nil (List.flatMap _ _)]
  refine bind_eq_ok.mpr ⟨_, _, byte_eq_ok.mpr rfl, ?_⟩
  refine bind_eq_ok.mpr ⟨_, _, lift_eq_ok.mpr ⟨hformat, rfl⟩, ?_⟩
  refine bind_eq_ok.mpr ⟨_, _, byte_eq_ok.mpr rfl, bind_eq_ok.mpr ⟨c.records, [], ?_, rfl⟩⟩
  rw [hlength]
  exact items_append (fun r hr => ChangeRecord.reader_bytes (hentries r hr)) []

theorem length_of_decode (h : decode data = .ok c) :
    c.records.length ≤ 255 ∧ ∀ r ∈ c.records, r.entries.length ≤ 255 := by
  simp only [decode, parse_eq_ok, reader, bind_eq_ok, pure_eq_ok] at h
  obtain ⟨_, _, _, -, _, _, -, count, _, -, records, _, hrecords, rfl, -⟩ := h
  have hbyte := count.toNat_lt
  obtain ⟨hlength, hread⟩ := of_items_eq_ok hrecords
  refine ⟨by change records.length ≤ 255; omega, fun r hr => ?_⟩
  obtain ⟨_, _, hr⟩ := hread r hr
  exact ChangeRecord.length_of_reader hr

/-- The error reports the count of the change records, or that of the entries in one of them. -/
def TooMany (c : RepositoryChange) (e : WireError) : Prop :=
  255 < c.records.length ∧ e = tooMany "repo_change.num_change_records" c.records.length ∨
    ∃ r ∈ c.records, 255 < r.entries.length ∧ e = tooMany "repo_change.num_entries" r.entries.length

theorem encode_total (c : RepositoryChange) :
    (∃ e, c.encode = .error e ∧ c.TooMany e) ∨
      ∃ data, c.encode = .ok data ∧ decode data = .ok c := by
  by_cases hcount : c.records.length ≤ 255
  · by_cases hentries : ∀ r ∈ c.records, r.entries.length ≤ 255
    · exact .inr (decode_encode hentries hcount)
    · have hlong : ∃ r ∈ c.records, 255 < r.entries.length := by simpa using hentries
      obtain ⟨r, hr, hmany, herror⟩ := ChangeRecord.encodeAll_of_many hlong
      refine .inl ⟨_, ?_, .inr ⟨r, hr, hmany, rfl⟩⟩
      unfold encode
      rw [countByte_eq_ok.mpr ⟨hcount, rfl⟩, herror]
      rfl
  · have hmany := Nat.not_le.mp hcount
    exact .inl ⟨_, encode_of_many hmany, .inl ⟨hmany, rfl⟩⟩

end RepositoryChange

/-- Every message survives being read and written again, and a value that is too long is refused and
not cut. -/
theorem messages_round_trip :
    (∀ message header payload, MessageHeader.decode message = .ok (header, payload) →
      ∀ more, MessageHeader.decode (header.encode ++ more) = .ok (header, more)) ∧
    Rewritable RecordRequest.decode (fun r => .ok r.encode) ∧
    Rewritable RecordResponse.decode (fun r => .ok r.encode) ∧
    Rewritable PlatformEvent.decode (fun e => .ok e.encode) ∧
    Rewritable EventAnswer.decode (fun a => .ok a.encode) ∧
    Rewritable RepositoryChange.decode RepositoryChange.encode ∧
    Rewritable SensorEvent.decode (fun e => .ok e.encode) ∧
    Rewritable ReadingsRequest.decode (fun r => .ok r.encode) ∧
    Rewritable ReadingsResponse.decode ReadingsResponse.encode ∧
    (∀ c : RepositoryChange, (∃ e, c.encode = .error e ∧ c.TooMany e) ∨
      ∃ data, c.encode = .ok data ∧ RepositoryChange.decode data = .ok c) ∧
    ∀ r : ReadingsResponse, r.completion.isSuccess →
      (255 < r.readings.length ∧
        r.encode = .error (tooMany "state_readings.composite_count" r.readings.length)) ∨
      ∃ body, r.encode = .ok body ∧ ReadingsResponse.decode body = .ok r := by
  refine ⟨fun message header payload h more => ?_, .of_total RecordRequest.decode_encode,
    .of_carried _ (fun _ _ h => (RecordResponse.of_decode h).1) fun _ => RecordResponse.decode_encode,
    .of_carried _ (fun _ _ => PlatformEvent.mk_code_of_decode) fun _ => PlatformEvent.decode_encode,
    .of_carried _ (fun _ _ => EventAnswer.carried_of_decode) fun _ => EventAnswer.decode_encode,
    fun data c h => ?_,
    .of_carried _ (fun _ _ => SensorEvent.carried_of_decode) fun _ => SensorEvent.decode_encode,
    .of_total ReadingsRequest.decode_encode, ReadingsResponse.rewritable,
    RepositoryChange.encode_total, fun r hsuccess => ?_⟩
  · have hback := header.decode_encode more
    rwa [MessageHeader.arrived_of_decode h] at hback
  · obtain ⟨hcount, hentries⟩ := RepositoryChange.length_of_decode h
    exact RepositoryChange.decode_encode hentries hcount
  · by_cases hfits : r.readings.length ≤ 255
    · exact .inr (ReadingsResponse.decode_encode hsuccess hfits)
    · have hmany := Nat.not_le.mp hfits
      exact .inl ⟨hmany, ReadingsResponse.encode_of_many hsuccess hmany⟩

/-- An answer with a byte too many is accepted, and written again without it. -/
theorem padded_readings_round_trip :
    let r : ReadingsResponse := ⟨.success, [.enabled 2]⟩
    ReadingsResponse.decode [0, 1, 0, 2, 2, 2, 9] = .ok r ∧
      ∃ again, r.encode = .ok again ∧ ReadingsResponse.decode again = .ok r := by
  intro r
  obtain ⟨-, -, -, -, -, -, -, -, hreadings, -⟩ := messages_round_trip
  have hread : ReadingsResponse.decode [0, 1, 0, 2, 2, 2, 9] = .ok r := rfl
  exact ⟨hread, hreadings _ r hread⟩

end DescriptorExchange
