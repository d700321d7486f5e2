import DescriptorExchange.Proofs.Message.Frame

/-!
Frames written to a stream one after another. A frame that is too long for its length field is refused
before any byte of it is written, so it leaves the stream in step; all others are read back in the order
in which they were written, and behind the last of them the stream ends between frames.
-/
namespace DescriptorExchange.Frame

variable {f : Frame} {frames : List Frame} {stream written more : Bytes}

/-- Writes a frame behind what has been written. -/
def write (f : Frame) (written : Bytes) : Bytes × Except TransportError Unit :=
  match f.encode with
  | .ok bytes => (written ++ bytes, .ok ())
  | .error cause => (written, .error cause)

/-- Writes frames one after another, whatever becomes of each. -/
def writeEach : List Frame → Bytes → Bytes × List (Except TransportError Unit)
  | [], written => (written, [])
  | f :: rest, written =>
    let (stream, result) := f.write written
    let (stream, results) := writeEach rest stream
    (stream, result :: results)

/-- The length field can tell how long the frame is. -/
def Fits (f : Frame) : Prop := f.message.payload.length ≤ maxPayload

instance (f : Frame) : Decidable f.Fits := inferInstanceAs (Decidable (_ ≤ _))

/-- The instance id and the type are no larger than their places in the header, and the type is the one
its code stands for. -/
def Canonical (f : Frame) : Prop :=
  f.message.header.instanceId.isValid ∧ f.message.header.type.code < 64 ∧
    .mk f.message.header.type.code = f.message.header.type

instance (f : Frame) : Decidable f.Canonical := inferInstanceAs (Decidable (_ ∧ _))

theorem arrived_of_canonical (h : f.Canonical) : f.arrived = f := by
  obtain ⟨eid, ⟨request, datagram, ⟨iid⟩, type, command⟩, payload⟩ := f
  obtain ⟨hiid, hcode, htype⟩ := h
  have hlow : iid % 32 = iid := by
    have hlt : iid.toNat < 32 := of_decide_eq_true hiid
    rw [← UInt8.toNat_inj, UInt8.toNat_mod]
    exact Nat.mod_eq_of_lt hlt
  have hkind : type.code % 64 = type.code := by
    rw [← UInt8.toNat_inj, UInt8.toNat_mod]
    exact Nat.mod_eq_of_lt hcode
  simp only [arrived, MessageHeader.arrived, hlow, hkind]
  rw [htype]

theorem write_of_fits (h : f.Fits) (written : Bytes) :
    f.write written = (written ++ (littleEndian lengthWidth f.body.length ++ f.body), .ok ()) := by
  rw [write, f.encode_eq h]

theorem write_of_not_fits (h : ¬ f.Fits) (written : Bytes) :
    f.write written = (written,
      .error (.malformed (.invalidField "frame.len" (UInt32.ofNat f.body.length)))) := by
  have hlong : maxBody < f.body.length := Nat.lt_of_not_le (mt length_body_le_iff.mp h)
  rw [length_body] at hlong ⊢
  unfold write encode
  dsimp only
  rw [if_pos hlong]

/-- What is written goes behind what has been written. -/
theorem writeEach_fst (frames : List Frame) (written : Bytes) :
    (writeEach frames written).1 = written ++ (writeEach frames []).1 := by
  induction frames generalizing written with
  | nil => simp [writeEach]
  | cons f rest ih =>
    simp only [writeEach]
    rw [ih (f.write written).1, ih (f.write []).1]
    by_cases hfits : f.Fits
    · simp [write_of_fits hfits]
    · simp [write_of_not_fits hfits]

theorem readAll_nil : readAll [] = ([], none) := by
  have hread : read [] = .ok none := rfl
  rw [readAll]
  split <;> simp_all

theorem readAll_append (h : f.encode = .ok stream) (more : Bytes) :
    readAll (stream ++ more) = (f.arrived :: (readAll more).1, (readAll more).2) := by
  have hread := read_encode h more
  rw [readAll]
  split <;> simp_all

/-- The frames that fit are what a stream holds, in the order in which they were written. -/
theorem readAll_writeEach (frames : List Frame) :
    readAll (writeEach frames []).1 = ((frames.filter (·.Fits)).map arrived, none) := by
  induction frames with
  | nil => exact readAll_nil
  | cons f rest ih =>
    simp only [writeEach]
    rw [writeEach_fst]
    by_cases hfits : f.Fits
    · rw [write_of_fits hfits, List.nil_append, readAll_append (f.encode_eq hfits), ih]
      simp [hfits]
    · rw [write_of_not_fits hfits, List.nil_append, ih]
      simp [hfits]

theorem writeEach_snd_of_fits (hfits : ∀ f ∈ frames, f.Fits) (written : Bytes) :
    ∀ result ∈ (writeEach frames written).2, result = .ok () := by
  induction frames generalizing written with
  | nil => simp [writeEach]
  | cons f rest ih =>
    obtain ⟨hf, hrest⟩ := List.forall_mem_cons.mp hfits
    simp only [writeEach, write_of_fits hf, List.mem_cons, forall_eq_or_imp, true_and]
    exact ih hrest _

/-- Frames with canonical headers and payloads of at most 65531 bytes can all be written, and reading gives
them back in order and then the end of the stream. A frame is refused, and nothing of it written, just if
its payload is longer. -/
theorem stream_round_trip :
    (∀ frames : List Frame, (∀ f ∈ frames, f.Canonical ∧ f.message.payload.length ≤ 65531) →
      (∀ result ∈ (writeEach frames []).2, result = .ok ()) ∧
        readAll (writeEach frames []).1 = (frames, none)) ∧
    ∀ (f : Frame) (written : Bytes),
      ((∃ cause, (f.write written).2 = .error cause) ↔ 65531 < f.message.payload.length) ∧
      ((∃ cause, (f.write written).2 = .error cause) → (f.write written).1 = written) := by
  constructor
  · intro frames hframes
    have hfits : ∀ f ∈ frames, f.Fits := fun f hf => (hframes f hf).2
    refine ⟨writeEach_snd_of_fits hfits [], ?_⟩
    have hall : frames.filter (·.Fits) = frames := by simpa [List.filter_eq_self] using hfits
    have harrived : frames.map arrived = frames.map id :=
      List.map_congr_left fun f hf => arrived_of_canonical (hframes f hf).1
    rw [readAll_writeEach, hall, harrived, List.map_id]
  · intro f written
    by_cases hfits : f.Fits
    · have hshort : ¬ 65531 < f.message.payload.length := Nat.not_lt.mpr hfits
      simp [write_of_fits hfits, hshort]
    · have hlong : 65531 < f.message.payload.length := Nat.lt_of_not_le hfits
      simp [write_of_not_fits hfits, hlong]

/-- A frame with every bit of its header set and the longest payload, and an empty one behind it. -/
def longestThenEmpty : List Frame :=
  let full : MessageHeader :=
    { request := true, datagram := true, instanceId := ⟨31⟩, type := .oem, command := 255 }
  [⟨⟨255⟩, full, List.replicate 65531 255⟩, ⟨⟨9⟩, .forRequest ⟨0⟩ .base 0, []⟩]

theorem stream_round_trip_longest :
    (∀ f ∈ longestThenEmpty, f.Canonical ∧ f.message.payload.length ≤ 65531) ∧
      readAll (writeEach longestThenEmpty []).1 = (longestThenEmpty, none) := by
  have hframes : ∀ f ∈ longestThenEmpty, f.Canonical ∧ f.message.payload.length ≤ 65531 := by
    intro f hf
    simp only [longestThenEmpty, List.mem_cons, List.not_mem_nil, or_false] at hf
    rcases hf with rfl | rfl
    · exact ⟨⟨by decide, by decide, rfl⟩, Nat.le_of_eq List.length_replicate⟩
    · exact ⟨⟨by decide, by decide, rfl⟩, Nat.zero_le _⟩
  exact ⟨hframes, (stream_round_trip.1 longestThenEmpty hframes).2⟩

end DescriptorExchange.Frame
