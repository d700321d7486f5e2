import DescriptorExchange.Exchange.Cycle
import DescriptorExchange.Proofs.Wire.Reader
import Mathlib.Tactic.Common

/-!
An answer that carries a whole record is read back as it was written, as long as the record fits the
length field. A request and a refusal always are. A record that has been read out of an answer is
shorter than it by the other fields.
-/
namespace DescriptorExchange

open Reader

variable {next : RecordHandle} {record : Bytes}

theorem RecordRequest.decode_encode (r : RecordRequest) : decode r.encode = .ok r := by
  have hencode : r.encode = word32 r.handle ++ (word32 r.transferHandle ++
      (r.operation :: (word16 r.maxCount ++ (word16 r.changeNumber ++ [])))) := by
    simp [encode]
  rw [hencode]
  refine parse_eq_ok.mpr ⟨[], bind_eq_ok.mpr ⟨r.handle, _, word32_eq_ok.mpr rfl, ?_⟩⟩
  refine bind_eq_ok.mpr ⟨r.transferHandle, _, word32_eq_ok.mpr rfl, ?_⟩
  refine bind_eq_ok.mpr ⟨r.operation, _, byte_eq_ok.mpr rfl, ?_⟩
  refine bind_eq_ok.mpr ⟨r.maxCount, _, word16_eq_ok.mpr rfl, ?_⟩
  exact bind_eq_ok.mpr ⟨r.changeNumber, [], word16_eq_ok.mpr rfl, rfl⟩

namespace RecordResponse

/-- What the wire can carry: a successful answer with a record short enough, and a checksum just if
it is the last part; of a refusal the completion code alone. -/
def Carried (r : RecordResponse) : Prop :=
  if r.completion.isSuccess then
    r.data.length < 65536 ∧ (r.checksum.isSome ↔ r.part = .last)
  else r = refusal r.completion

theorem ofCode_code (part : TransferPart) : TransferPart.ofCode part.code = .ok part := by
  cases part <;> rfl

theorem decode_encode {r : RecordResponse} (h : r.Carried) : decode r.encode = .ok r := by
  by_cases hcode : r.completion.isSuccess
  · rw [Carried, if_pos hcode] at h
    obtain ⟨hfits, hchecked⟩ := h
    have hcount : (UInt16.ofNat r.data.length).toNat = r.data.length :=
      UInt16.toNat_ofNat_of_lt' hfits
    have hencode : r.encode = r.completion.value :: (word32 r.next ++ (word32 r.nextTransferHandle ++
        (r.part.code :: (word16 (UInt16.ofNat r.data.length) ++ (r.data ++ r.checksum.toList))))) := by
      simp [encode, hcode]
    rw [hencode]
    refine parse_eq_ok.mpr ⟨[], bind_eq_ok.mpr ⟨_, _, byte_eq_ok.mpr rfl, ?_⟩⟩
    rw [if_pos hcode]
    refine bind_eq_ok.mpr ⟨r.next, _, word32_eq_ok.mpr rfl, ?_⟩
    refine bind_eq_ok.mpr ⟨r.nextTransferHandle, _, word32_eq_ok.mpr rfl, ?_⟩
    refine bind_eq_ok.mpr ⟨_, _, byte_eq_ok.mpr rfl, ?_⟩
    refine bind_eq_ok.mpr ⟨r.part, _, lift_eq_ok.mpr ⟨ofCode_code r.part, rfl⟩, ?_⟩
    refine bind_eq_ok.mpr ⟨_, _, word16_eq_ok.mpr rfl, ?_⟩
    refine bind_eq_ok.mpr ⟨r.data, _, take_eq_ok.mpr ⟨rfl, hcount.symm⟩, ?_⟩
    obtain ⟨completion, next, transfer, part, data, checksum⟩ := r
    cases part with
    | last =>
      obtain ⟨crc, rfl⟩ := Option.isSome_iff_exists.mp (hchecked.mpr rfl)
      exact bind_eq_ok.mpr ⟨some crc, [], map_eq_ok.mpr ⟨crc, byte_eq_ok.mpr rfl, rfl⟩, rfl⟩
    | first | middle | whole =>
      obtain rfl : checksum = none := Option.not_isSome_iff_eq_none.mp fun h => by
        cases hchecked.mp h
      exact bind_eq_ok.mpr ⟨none, [], rfl, rfl⟩
  · rw [Carried, if_neg hcode] at h
    have hencode : r.encode = [r.completion.value] := if_neg hcode
    rw [hencode]
    refine parse_eq_ok.mpr ⟨[], bind_eq_ok.mpr ⟨_, [], byte_eq_ok.mpr rfl, ?_⟩⟩
    rw [if_neg hcode]
    exact pure_eq_ok.mpr ⟨h.symm, rfl⟩

/-- The length of an answer besides the record it carries. -/
def overhead : Nat := 12

theorem length_encode_single (next : RecordHandle) (record : Bytes) :
    (single next record).encode.length = overhead + record.length := by
  simp [encode, single, CompletionCode.isSuccess, CompletionCode.success, overhead]
  omega

/-- An answer that can be read is one the wire can carry, and longer than its record by the other
fields. -/
theorem of_decode {body : Bytes} {response : RecordResponse} (h : decode body = .ok response) :
    response.Carried ∧
      (response.completion.isSuccess → overhead + response.data.length ≤ body.length) := by
  simp only [decode, parse_eq_ok, reader, bind_eq_ok, byte_eq_ok] at h
  obtain ⟨rest, completion, _, rfl, hread⟩ := h
  split_ifs at hread with hcode
  · simp only [bind_eq_ok, word32_eq_ok, byte_eq_ok, lift_eq_ok, word16_eq_ok, take_eq_ok] at hread
    obtain ⟨next, _, rfl, transfer, _, rfl, flag, _, rfl, part, _, ⟨-, rfl⟩, count, _, rfl, data, _,
      ⟨rfl, hdata⟩, hread⟩ := hread
    have hbyte := count.toNat_lt
    obtain ⟨checksum, hresponse, hchecked⟩ : ∃ checksum,
        response = ⟨⟨completion⟩, next, transfer, part, data, checksum⟩ ∧
          (checksum.isSome ↔ part = .last) := by
      cases part with
      | last =>
        simp only [bind_eq_ok, map_eq_ok, pure_eq_ok] at hread
        obtain ⟨_, _, ⟨crc, -, rfl⟩, rfl, -⟩ := hread
        exact ⟨some crc, rfl, by simp⟩
      | first | middle | whole =>
        simp only [bind_eq_ok, pure_eq_ok] at hread
        obtain ⟨_, _, ⟨rfl, -⟩, rfl, -⟩ := hread
        exact ⟨none, rfl, by simp⟩
    subst hresponse
    refine ⟨?_, fun _ => ?_⟩
    · rw [Carried, if_pos hcode]
      exact ⟨by change data.length < 65536; omega, hchecked⟩
    · simp only [overhead, List.length_cons, List.length_append, length_word32, length_word16]
      omega
  · obtain ⟨rfl, -⟩ := pure_eq_ok.mp hread
    have hrefused : ¬ (refusal ⟨completion⟩).completion.isSuccess := hcode
    exact ⟨by rw [Carried, if_neg hrefused]; rfl, fun hsuccess => absurd hsuccess hrefused⟩

theorem decode_encode_refusal {code : CompletionCode} (hcode : ¬ code.isSuccess) :
    decode (refusal code).encode = .ok (refusal code) := by
  have hrefused : ¬ (refusal code).completion.isSuccess := hcode
  exact decode_encode (by rw [Carried, if_neg hrefused]; rfl)

theorem decode_encode_single (hfits : record.length < 65536) :
    decode (single next record).encode = .ok (single next record) := by
  have hsuccess : (single next record).completion.isSuccess := rfl
  refine decode_encode ?_
  rw [Carried, if_pos hsuccess]
  exact ⟨hfits, by simp [single]⟩

end RecordResponse

theorem Exchange.length_of_readAnswer {handle : RecordHandle} {body : Bytes}
    (h : readAnswer handle (.ok body) = .ok (record, next)) :
    RecordResponse.overhead + record.length ≤ body.length := by
  unfold readAnswer at h
  change ((RecordResponse.decode body).mapError (ExchangeError.decode handle)).bind _ = _ at h
  cases hdecode : RecordResponse.decode body with
  | error e => simp [hdecode, Except.mapError, Except.bind] at h
  | ok response =>
    simp only [hdecode, Except.mapError, Except.bind] at h
    by_cases hcode : response.completion.isSuccess
    · rw [if_neg (not_not.mpr hcode)] at h
      have hdata : response.data = record := by
        cases hpart : response.part <;>
          simp [RecordResponse.record, hpart, pure, Except.pure, bind, Except.bind] at h
        exact h.1
      exact hdata ▸ (RecordResponse.of_decode hdecode).2 hcode
    · rw [if_pos hcode] at h
      cases h

theorem Exchange.readAnswer_refusal {handle : RecordHandle} {code : CompletionCode}
    (hcode : ¬ code.isSuccess) : readAnswer handle (.ok (RecordResponse.refusal code).encode) =
      .error (.completion handle code) := by
  unfold readAnswer
  change ((RecordResponse.decode (RecordResponse.refusal code).encode).mapError
    (ExchangeError.decode handle)).bind _ = _
  rw [RecordResponse.decode_encode_refusal hcode]
  have hrefused : ¬ (RecordResponse.refusal code).completion.isSuccess := hcode
  simp only [Except.mapError, Except.bind]
  rw [if_pos hrefused]
  rfl

theorem Exchange.readAnswer_single {handle : RecordHandle} (hfits : record.length < 65536) :
    readAnswer handle (.ok (RecordResponse.single next record).encode) = .ok (record, next) := by
  have hdecode : RecordResponse.decode (RecordResponse.single next record).encode = _ :=
    RecordResponse.decode_encode_single hfits
  unfold readAnswer
  change ((RecordResponse.decode (RecordResponse.single next record).encode).mapError
    (ExchangeError.decode handle)).bind _ = _
  rw [hdecode]
  rfl

end DescriptorExchange
