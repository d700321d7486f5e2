import DescriptorExchange.Proofs.Record.Association
import DescriptorExchange.Proofs.Record.StateSet
import DescriptorExchange.Record.StateEffecter
import DescriptorExchange.Record.StateSensor
import DescriptorExchange.Record.TerminusLocator

/-!
Records survive the wire. What is written is read back with its header, what is read means the same
when it is written again, and a record that was cut is never taken for a shorter one.
-/
namespace DescriptorExchange

section body

variable {α : Type} [RecordBody α]

/-- The start of a record that reads as a record of its own is the whole of it: its header declares
everything that follows. -/
theorem eq_of_decodeRecord_front {k : RecordHandle} {v w : α} {front : Bytes} {header : RecordHeader}
    (hfits : (RecordBody.encode v).length < 65536) (hfront : front <+: encodeRecord k v)
    (h : decodeRecord α front = .ok (header, w)) : front = encodeRecord k v := by
  obtain ⟨body, _, hsplit, -, -⟩ := decodeRecord_eq_ok.mp h
  obtain ⟨htype, tail, rfl, hbody⟩ := RecordHeader.split_eq_ok.mp hsplit
  have hwritten : encodeRecord k v = (writtenHeader k 0 v).encode ++ RecordBody.encode v :=
    encodeRecordAs_eq k 0 v
  have hheader : header = writtenHeader k 0 v := by
    obtain ⟨more, hmore⟩ := hfront
    rw [hwritten, List.append_assoc, List.append_assoc] at hmore
    exact RecordHeader.encode_inj htype RecordBody.mk_code_type (List.append_inj hmore (by simp)).1
  have hlength : body.length = (RecordBody.encode v).length := by
    rw [hbody, hheader]
    exact UInt16.toNat_ofNat_of_lt' hfits
  apply hfront.eq_of_length_le
  simp only [hwritten, List.length_append, RecordHeader.length_encode, hlength]
  omega

/-- What writing and reading records of one kind do to each other, where `Fits` tells the values
whose lists are as short as their counts can say. -/
structure RoundTrips (α : Type) [RecordBody α] (Fits : α → Prop) : Prop where
  written : ∀ handle v, Fits v → ∃ header, decodeRecord α (encodeRecord handle v) = .ok (header, v) ∧
    header.handle = handle ∧ header.version = 1 ∧ header.type = RecordBody.type α ∧
    header.changeNumber = 0 ∧ header.dataLength.toNat = (RecordBody.encode v).length
  reread : ∀ record header v, decodeRecord α record = .ok (header, v) →
    ∃ again, decodeRecord α (encodeRecord header.handle v) = .ok (again, v)
  cut : ∀ handle v, Fits v → ∀ front, front <+: encodeRecord handle v →
    front ≠ encodeRecord handle v → ∃ e, decodeRecord α front = .error e

/-- A kind of record makes the round trip if its body does, and is never read as one that does not
fit. -/
theorem RoundTrips.of_body {Fits : α → Prop}
    (hlength : ∀ v, Fits v → (RecordBody.encode v).length < 65536)
    (hread : ∀ v, Fits v → RecordBody.reader (RecordBody.encode v) = .ok (v, []))
    (hfits : ∀ input rest v, RecordBody.reader input = .ok (v, rest) → Fits v) :
    RoundTrips α Fits where
  written handle v hv := ⟨writtenHeader handle 0 v,
    decodeRecord_encodeRecordAs (hlength v hv) (hread v hv), rfl, rfl, rfl, rfl,
    UInt16.toNat_ofNat_of_lt' (hlength v hv)⟩
  reread record header v h := by
    obtain ⟨body, rest, -, -, hbody⟩ := decodeRecord_eq_ok.mp h
    have hv := hfits body rest v hbody
    exact ⟨_, decodeRecord_encodeRecordAs (hlength v hv) (hread v hv)⟩
  cut handle v hv front hfront hne := by
    cases h : decodeRecord α front with
    | error e => exact ⟨e, rfl⟩
    | ok found => exact absurd (eq_of_decodeRecord_front (hlength v hv) hfront h) hne

end body

theorem Association.roundTrips :
    RoundTrips Association fun a => a.children.length ≤ maxChildren := by
  refine .of_body (fun a ha => ?_) (fun a ha => ?_) fun input rest a h => (reader_eq_ok.mp h).1
  · change a.encode.length < 65536
    rw [length_encode]
    unfold maxChildren at ha
    omega
  · exact reader_eq_ok.mpr ⟨ha, (List.append_nil _).symm⟩

namespace StateSensor

variable {input rest : Bytes}

theorem reader_encode {s : StateSensor} (hcount : s.possibleStates.length ≤ 255) :
    reader s.encode = .ok (s, []) := by
  have hencode : s.encode = word16 s.terminusHandle ++ (word16 s.sensorId ++ (s.entity.encode ++
      (s.init :: flagByte s.hasAuxiliaryNames ::
        (PossibleStates.encodeList s.possibleStates ++ [])))) := by
    simp [encode]
  rw [hencode]
  refine Reader.bind_eq_ok.mpr ⟨s.terminusHandle, _, Reader.word16_eq_ok.mpr rfl, ?_⟩
  refine Reader.bind_eq_ok.mpr ⟨s.sensorId, _, Reader.word16_eq_ok.mpr rfl, ?_⟩
  refine Reader.bind_eq_ok.mpr ⟨s.entity, _, Entity.reader_eq_ok.mpr rfl, ?_⟩
  refine Reader.bind_eq_ok.mpr ⟨s.init, _, Reader.byte_eq_ok.mpr rfl, ?_⟩
  refine Reader.bind_eq_ok.mpr ⟨_, _, Reader.byte_eq_ok.mpr rfl, ?_⟩
  refine Reader.bind_eq_ok.mpr ⟨_, _, PossibleStates.listReader_encodeList hcount [], ?_⟩
  exact Reader.pure_eq_ok.mpr ⟨by rw [flagByte_ne_zero], rfl⟩

theorem length_of_reader {s : StateSensor} (h : reader input = .ok (s, rest)) :
    s.possibleStates.length ≤ 255 := by
  simp only [reader, Reader.bind_eq_ok, Reader.pure_eq_ok] at h
  obtain ⟨_, _, -, _, _, -, _, _, -, _, _, -, _, _, -, blocks, _, hblocks, rfl, -⟩ := h
  exact PossibleStates.length_of_listReader hblocks

theorem roundTrips : RoundTrips StateSensor fun s => s.possibleStates.length ≤ 255 := by
  refine .of_body (fun s hs => ?_) (fun s hs => reader_encode hs) fun _ _ s h => length_of_reader h
  have hblocks := PossibleStates.length_encodeList_le s.possibleStates
  change s.encode.length < 65536
  simp only [encode, List.length_append, length_word16, Entity.length_encode, List.length_cons,
    List.length_nil]
  omega

end StateSensor

namespace StateEffecter

variable {input rest : Bytes}

theorem reader_encode {e : StateEffecter} (hcount : e.possibleStates.length ≤ 255) :
    reader e.encode = .ok (e, []) := by
  have hencode : e.encode = word16 e.terminusHandle ++ (word16 e.effecterId ++ (e.entity.encode ++
      (word16 e.semanticId ++ (e.init :: flagByte e.hasDescription ::
        (PossibleStates.encodeList e.possibleStates ++ []))))) := by
    simp [encode]
  rw [hencode]
  refine Reader.bind_eq_ok.mpr ⟨e.terminusHandle, _, Reader.word16_eq_ok.mpr rfl, ?_⟩
  refine Reader.bind_eq_ok.mpr ⟨e.effecterId, _, Reader.word16_eq_ok.mpr rfl, ?_⟩
  refine Reader.bind_eq_ok.mpr ⟨e.entity, _, Entity.reader_eq_ok.mpr rfl, ?_⟩
  refine Reader.bind_eq_ok.mpr ⟨e.semanticId, _, Reader.word16_eq_ok.mpr rfl, ?_⟩
  refine Reader.bind_eq_ok.mpr ⟨e.init, _, Reader.byte_eq_ok.mpr rfl, ?_⟩
  refine Reader.bind_eq_ok.mpr ⟨_, _, Reader.byte_eq_ok.mpr rfl, ?_⟩
  refine Reader.bind_eq_ok.mpr ⟨_, _, PossibleStates.listReader_encodeList hcount [], ?_⟩
  exact Reader.pure_eq_ok.mpr ⟨by rw [flagByte_ne_zero], rfl⟩

theorem length_of_reader {e : StateEffecter} (h : reader input = .ok (e, rest)) :
    e.possibleStates.length ≤ 255 := by
  simp only [reader, Reader.bind_eq_ok, Reader.pure_eq_ok] at h
  obtain ⟨_, _, -, _, _, -, _, _, -, _, _, -, _, _, -, _, _, -, blocks, _, hblocks, rfl, -⟩ := h
  exact PossibleStates.length_of_listReader hblocks

theorem roundTrips : RoundTrips StateEffecter fun e => e.possibleStates.length ≤ 255 := by
  refine .of_body (fun e he => ?_) (fun e he => reader_encode he) fun _ _ e h => length_of_reader h
  have hblocks := PossibleStates.length_encodeList_le e.possibleStates
  change e.encode.length < 65536
  simp only [encode, List.length_append, length_word16, Entity.length_encode, List.length_cons,
    List.length_nil]
  omega

end StateEffecter

/-- Another way of locating is written faithfully unless its type says endpoint, or its value is
longer than one byte can tell. -/
def Locator.Fits : Locator → Prop
  | .endpoint _ => True
  | .other kind value => kind ≠ TerminusLocator.endpointKind ∧ value.length ≤ 255

namespace TerminusLocator

variable {input rest : Bytes}

/-- The type and the value under which a locator is written. -/
def taggedValue : Locator → UInt8 × Bytes
  | .endpoint eid => (endpointKind, [eid.value])
  | .other kind value => (kind, value)

theorem encodeLocator_eq (l : Locator) : encodeLocator l =
    (taggedValue l).1 :: UInt8.ofNat (taggedValue l).2.length :: (taggedValue l).2 := by
  cases l <;> rfl

theorem length_taggedValue {l : Locator} (hl : l.Fits) : (taggedValue l).2.length ≤ 255 := by
  cases l with
  | endpoint eid => simp [taggedValue]
  | other kind value => exact hl.2

theorem locatorOf_taggedValue {l : Locator} (hl : l.Fits) :
    locatorOf (taggedValue l).1 (taggedValue l).2 = .ok l := by
  cases l with
  | endpoint eid => rfl
  | other kind value => exact if_pos hl.1

theorem fits_of_locatorOf {kind : UInt8} {value : Bytes} {l : Locator}
    (h : locatorOf kind value = .ok l) (hvalue : value.length ≤ 255) : l.Fits := by
  unfold locatorOf at h
  split_ifs at h with hkind
  · obtain rfl := Except.ok.inj h
    exact ⟨hkind, hvalue⟩
  · split at h
    · obtain rfl := Except.ok.inj h
      trivial
    · cases h

theorem reader_encode {t : TerminusLocator} (hfits : t.locator.Fits) :
    reader t.encode = .ok (t, []) := by
  have hvalue := length_taggedValue hfits
  have hsize : (UInt8.ofNat (taggedValue t.locator).2.length).toNat =
      (taggedValue t.locator).2.length := UInt8.toNat_ofNat_of_lt' (Nat.lt_succ_of_le hvalue)
  have hencode : t.encode = word16 t.terminusHandle ++ (flagByte t.valid :: t.tid.value ::
      (word16 t.containerId ++ ((taggedValue t.locator).1 ::
        UInt8.ofNat (taggedValue t.locator).2.length :: ((taggedValue t.locator).2 ++ [])))) := by
    simp [encode, encodeLocator_eq]
  rw [hencode]
  refine Reader.bind_eq_ok.mpr ⟨t.terminusHandle, _, Reader.word16_eq_ok.mpr rfl, ?_⟩
  refine Reader.bind_eq_ok.mpr ⟨_, _, Reader.byte_eq_ok.mpr rfl, ?_⟩
  refine Reader.bind_eq_ok.mpr ⟨_, _, Reader.byte_eq_ok.mpr rfl, ?_⟩
  refine Reader.bind_eq_ok.mpr ⟨t.containerId, _, Reader.word16_eq_ok.mpr rfl, ?_⟩
  refine Reader.bind_eq_ok.mpr ⟨_, _, Reader.byte_eq_ok.mpr rfl, ?_⟩
  refine Reader.bind_eq_ok.mpr ⟨_, _, Reader.byte_eq_ok.mpr rfl, ?_⟩
  refine Reader.bind_eq_ok.mpr ⟨_, [], Reader.take_eq_ok.mpr ⟨rfl, hsize.symm⟩, ?_⟩
  refine Reader.bind_eq_ok.mpr ⟨_, [], Reader.lift_eq_ok.mpr ⟨locatorOf_taggedValue hfits, rfl⟩, ?_⟩
  exact Reader.pure_eq_ok.mpr ⟨by rw [flagByte_ne_zero], rfl⟩

theorem fits_of_reader {t : TerminusLocator} (h : reader input = .ok (t, rest)) :
    t.locator.Fits := by
  simp only [reader, Reader.bind_eq_ok, Reader.take_eq_ok, Reader.lift_eq_ok,
    Reader.pure_eq_ok] at h
  obtain ⟨_, _, -, _, _, -, _, _, -, _, _, -, _, _, -, size, _, -, value, _, ⟨-, hvalue⟩, locator, _,
    ⟨hlocator, -⟩, rfl, -⟩ := h
  have hbyte := size.toNat_lt
  exact fits_of_locatorOf hlocator (by omega)

theorem roundTrips : RoundTrips TerminusLocator fun t => t.locator.Fits := by
  refine .of_body (fun t ht => ?_) (fun t ht => reader_encode ht) fun _ _ t h => fits_of_reader h
  have hvalue := length_taggedValue ht
  change t.encode.length < 65536
  simp only [encode, encodeLocator_eq, List.length_append, length_word16, List.length_cons,
    List.length_nil]
  omega

end TerminusLocator

/-- Every kind of record survives the wire, up to the counts of one byte. -/
theorem records_round_trip :
    RoundTrips Association (fun a => a.children.length ≤ 255) ∧
    RoundTrips StateSensor (fun s => s.possibleStates.length ≤ 255) ∧
    RoundTrips StateEffecter (fun e => e.possibleStates.length ≤ 255) ∧
    RoundTrips TerminusLocator (fun t => t.locator.Fits) :=
  ⟨Association.roundTrips, StateSensor.roundTrips, StateEffecter.roundTrips,
    TerminusLocator.roundTrips⟩

/-- A composite sensor whose blocks take two bytes and one comes back, and the record is not read
without its last byte. -/
theorem composite_sensor_round_trip :
    let s : StateSensor := ⟨17, 40, ⟨135, 1, 1⟩, 0, true, [⟨1, .ofList [0, 9]⟩, ⟨2, .empty⟩]⟩
    s.possibleStates.length ≤ 255 ∧
    (∃ header, decodeRecord StateSensor (encodeRecord 7 s) = .ok (header, s) ∧ header.handle = 7 ∧
      header.dataLength.toNat = 22) ∧
    ∃ e, decodeRecord StateSensor (encodeRecord 7 s).dropLast = .error e := by
  intro s
  have hfits : s.possibleStates.length ≤ 255 := by decide
  obtain ⟨header, hread, hhandle, -, -, -, hlength⟩ := records_round_trip.2.1.written 7 s hfits
  have hbody : (RecordBody.encode s).length = 22 := by decide +kernel
  have hcut := records_round_trip.2.1.cut 7 s hfits (encodeRecord 7 s).dropLast
  refine ⟨hfits, ⟨header, hread, hhandle, hlength.trans hbody⟩, ?_⟩
  exact hcut (List.dropLast_prefix _) (by decide +kernel)

end DescriptorExchange
