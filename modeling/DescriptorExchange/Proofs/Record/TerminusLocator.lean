import DescriptorExchange.Proofs.Record.Header
import DescriptorExchange.Proofs.Record.StateSet
import DescriptorExchange.Record.TerminusLocator

/-!
Replacing the validity in a terminus locator record. A record that can be read has the byte, it stays
readable, and nothing else about it changes.
-/
namespace DescriptorExchange.TerminusLocator

variable {record : Bytes} {header : RecordHeader} {t : TerminusLocator}

/-- The validity stands behind the terminus handle, whatever it is, and more follows. -/
theorem decodeRecord_shape (h : decodeRecord TerminusLocator record = .ok (header, t)) :
    ∃ front validity back, front.length = validityOffset ∧ record = front ++ [validity] ++ back ∧
      ∀ valid, decodeRecord TerminusLocator (front ++ [flagByte valid] ++ back) =
        .ok (header, { t with valid }) := by
  obtain ⟨body, rest, hsplit, htype, hbody⟩ := decodeRecord_eq_ok.mp h
  obtain ⟨hcode, tail, rfl, hlen⟩ := RecordHeader.split_eq_ok.mp hsplit
  change reader body = _ at hbody
  simp only [reader, Reader.bind_eq_ok, Reader.word16_eq_ok, Reader.byte_eq_ok, Reader.pure_eq_ok]
    at hbody
  obtain ⟨handle, _, rfl, validity, _, rfl, tid, more, rfl, container, _, hcontainer, kind, _, hkind,
    size, _, hsize, value, _, hvalue, locator, rest, hlocator, rfl, rfl⟩ := hbody
  have hread (valid : Bool) : reader (word16 handle ++ flagByte valid :: tid :: more) =
      .ok (⟨handle, valid, ⟨tid⟩, container, locator⟩, rest) := by
    simp only [reader, Reader.bind_eq_ok, Reader.word16_eq_ok, Reader.byte_eq_ok, Reader.pure_eq_ok]
    exact ⟨handle, _, rfl, flagByte valid, _, rfl, tid, more, rfl, container, _, hcontainer, kind, _,
      hkind, size, _, hsize, value, _, hvalue, locator, _, hlocator, by rw [flagByte_ne_zero], rfl⟩
  refine ⟨header.encode ++ word16 handle, validity, tid :: more ++ tail, ?_, ?_, fun valid => ?_⟩
  · rw [List.length_append, RecordHeader.length_encode, length_word16, validityOffset]
  · simp
  · refine decodeRecord_eq_ok.mpr ⟨_, rest, RecordHeader.split_eq_ok.mpr ⟨hcode, tail, ?_, ?_⟩,
      htype, hread valid⟩
    · simp
    · rw [← hlen]
      simp

/-- Replacing the validity of a record that can be read succeeds and changes the validity alone. -/
theorem setValidity_spec (h : decodeRecord TerminusLocator record = .ok (header, t)) (valid : Bool) :
    ∃ patched, setValidity valid record = .ok patched ∧
      decodeRecord TerminusLocator patched = .ok (header, { t with valid }) := by
  obtain ⟨front, validity, back, hfront, rfl, hdecode⟩ := decodeRecord_shape h
  refine ⟨_, ?_, hdecode valid⟩
  rw [setValidity, ← hfront]
  exact overwrite_append rfl

end DescriptorExchange.TerminusLocator
