import DescriptorExchange.Proofs.Record.StateEffecter
import DescriptorExchange.Proofs.Record.TerminusLocator

/-!
Fields that are replaced in the bytes of a record. Each of them stands at a fixed offset, which does not
depend on what comes behind it, so replacing it there and reading the record gives what was read before with
that field replaced. This holds of every record that can be read, also of one that was written in another way
than here or that has more bytes than it declares.
-/
namespace DescriptorExchange

variable {α β : Type} {field : String} {offset : Nat} {value record patched : Bytes}

/-- What replacing a field does to the bytes: the value stands at the offset, and nothing else has changed. -/
structure Replaced (offset : Nat) (value record patched : Bytes) : Prop where
  length : patched.length = record.length
  inside : (patched.drop offset).take value.length = value
  outside : ∀ i, i < offset ∨ offset + value.length ≤ i → patched[i]? = record[i]?

theorem replaced_of_overwrite (h : overwrite field offset value record = .ok patched) :
    Replaced offset value record patched := by
  constructor
  · exact length_overwrite h
  · obtain ⟨front, old, back, rfl, -, -, rfl⟩ := overwrite_eq_ok h
    rw [List.append_assoc, List.drop_left, List.take_left]
  · intro i hi
    exact getElem?_overwrite h hi

/-- A patch of the bytes goes with a change of what is read: where reading succeeds, so does the patch, and
what is read then is what was read before with the change made. -/
def Patches (read : Bytes → Except WireError β) (patch : α → Bytes → Except WireError Bytes)
    (change : α → β → β) (offset : Nat) (encode : α → Bytes) : Prop :=
  ∀ record x, read record = .ok x → ∀ a, ∃ patched, patch a record = .ok patched ∧
    read patched = .ok (change a x) ∧ Replaced offset (encode a) record patched

/-- To overwrite a field patches the bytes if reading them afterwards shows the change. -/
theorem Patches.of_overwrite {read : Bytes → Except WireError β} {change : α → β → β}
    {encode : α → Bytes}
    (h : ∀ record x, read record = .ok x → ∀ a, ∃ patched,
      overwrite field offset (encode a) record = .ok patched ∧ read patched = .ok (change a x)) :
    Patches read (fun a => overwrite field offset (encode a)) change offset encode := by
  intro record x hread a
  obtain ⟨patched, hpatch, hagain⟩ := h record x hread a
  exact ⟨patched, hpatch, hagain, replaced_of_overwrite hpatch⟩

theorem StateEffecter.patches_container :
    Patches (decodeRecord StateEffecter) setContainer
      (fun c x => (x.1, { x.2 with entity.container := c })) containerOffset word16 := by
  apply Patches.of_overwrite
  intro record x hread c
  obtain ⟨patched, hset, hagain, -⟩ := setContainer_spec hread c
  exact ⟨patched, hset, hagain⟩

theorem TerminusLocator.patches_validity :
    Patches (decodeRecord TerminusLocator) setValidity
      (fun valid x => (x.1, { x.2 with valid })) validityOffset (fun valid => [flagByte valid]) := by
  apply Patches.of_overwrite
  intro record x hread valid
  exact setValidity_spec hread valid

theorem RecordHeader.patches_handle :
    Patches split setRecordHandle (fun k x => ({ x.1 with handle := k }, x.2)) 0 word32 := by
  apply Patches.of_overwrite
  intro record x hsplit k
  obtain ⟨patched, hset, hagain, -⟩ := setRecordHandle_of_split hsplit k
  exact ⟨patched, hset, hagain⟩

/-- Whatever the type of the record, only the handle reads differently. -/
theorem patches_handle_of_body (α : Type) [RecordBody α] :
    Patches (decodeRecord α) setRecordHandle (fun k x => ({ x.1 with handle := k }, x.2)) 0
      word32 := by
  apply Patches.of_overwrite
  intro record x hread k
  obtain ⟨body, rest, hsplit, -⟩ := decodeRecord_eq_ok.mp hread
  obtain ⟨patched, hset, -⟩ := setRecordHandle_of_split hsplit k
  exact ⟨patched, hset, decodeRecord_setRecordHandle hset hread⟩

/-- The container of an effecter, the validity of a locator and the handle of any record are replaced in the
bytes as they are in what is read from them, on every record that can be read. -/
theorem fields_replaced_in_place :
    Patches (decodeRecord StateEffecter) StateEffecter.setContainer
      (fun c x => (x.1, { x.2 with entity.container := c })) 18 word16 ∧
    Patches (decodeRecord TerminusLocator) TerminusLocator.setValidity
      (fun valid x => (x.1, { x.2 with valid })) 12 (fun valid => [flagByte valid]) ∧
    Patches RecordHeader.split setRecordHandle
      (fun k x => ({ x.1 with handle := k }, x.2)) 0 word32 ∧
    ∀ (α : Type) [RecordBody α], Patches (decodeRecord α) setRecordHandle
      (fun k x => ({ x.1 with handle := k }, x.2)) 0 word32 :=
  ⟨StateEffecter.patches_container, TerminusLocator.patches_validity, RecordHeader.patches_handle,
    fun α _ => patches_handle_of_body α⟩

/-- An effecter whose bit field is longer than it need be, with a flag of 7, a byte of the body that no field
takes and another behind the body, gets another container, and then another handle. -/
theorem fields_replaced_in_place_surplus :
    let record : Bytes := [5, 0, 0, 0, 1, 11, 0, 0, 21, 0, 17, 0, 32, 0, 33, 0, 0, 0, 0, 0, 0, 0, 0, 7, 1,
      196, 0, 2, 6, 0, 238, 255]
    let header : RecordHeader := ⟨5, 1, .stateEffecter, 0, 21⟩
    let e : StateEffecter := ⟨17, 32, ⟨33, 0, 0⟩, 0, 0, true, [⟨196, .ofList [1, 2]⟩]⟩
    decodeRecord StateEffecter record = .ok (header, e) ∧
    ∃ patched, StateEffecter.setContainer 51 record = .ok patched ∧
      Replaced 18 [51, 0] record patched ∧
      ∃ again, setRecordHandle 0x01000042 patched = .ok again ∧
        Replaced 0 [66, 0, 0, 1] patched again ∧
        decodeRecord StateEffecter again =
          .ok ({ header with handle := 0x01000042 }, { e with entity.container := 51 }) := by
  intro record header e
  have hread : decodeRecord StateEffecter record = .ok (header, e) := by decide +kernel
  obtain ⟨patched, hset, hpatched, hreplaced⟩ := fields_replaced_in_place.1 record _ hread 51
  obtain ⟨again, hagain, hlast, hhandle⟩ :=
    fields_replaced_in_place.2.2.2 StateEffecter patched _ hpatched 0x01000042
  exact ⟨hread, patched, hset, hreplaced, again, hagain, hhandle, hlast⟩

end DescriptorExchange
