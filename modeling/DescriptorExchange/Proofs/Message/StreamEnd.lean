import DescriptorExchange.Proofs.Message.FrameStream

/-!
Streams that end inside a frame. Whatever stands in front of it is read first. Then the end is an error as
soon as the length of the frame has arrived; a lone byte of that length is taken for the end of the stream.
-/
namespace DescriptorExchange.Frame

variable {f : Frame} {frames : List Frame} {wire tail more : Bytes} {wires : List Bytes}

/-- The bytes are those of one whole frame. -/
def Carries (wire : Bytes) (f : Frame) : Prop :=
  ∃ body, minBody ≤ body.length ∧ body.length ≤ maxBody ∧ ofBody body = .ok f ∧
    wire = littleEndian lengthWidth body.length ++ body

/-- What the length at the front counts, as far as it is there. -/
def announced (tail : Bytes) : Nat := ofLittleEndian (tail.take lengthWidth)

/-- The bytes end before the frame they begin does. -/
def Unfinished (tail : Bytes) : Prop := tail.length < lengthWidth + announced tail

instance (tail : Bytes) : Decidable (Unfinished tail) := inferInstanceAs (Decidable (_ < _))

/-- How a stream ends that breaks off after these bytes of a frame. -/
def breakOff (tail : Bytes) : Option TransportError :=
  if tail.length < lengthWidth then none
  else if announced tail < minBody then
    some (.malformed (.truncated "frame" minBody (announced tail)))
  else some .closed

theorem front_unfinished (h : Unfinished tail) : front tail =
    if lengthWidth ≤ tail.length ∧ announced tail < minBody then
      .broken (.truncated "frame" minBody (announced tail))
    else .short := by
  unfold Unfinished announced at h
  unfold front announced
  dsimp only
  by_cases hwidth : tail.length < lengthWidth
  · rw [if_pos hwidth, if_neg fun hboth => Nat.not_le.mpr hwidth hboth.1]
  · have hshort : (tail.drop lengthWidth).length < ofLittleEndian (tail.take lengthWidth) := by
      rw [List.length_drop]
      omega
    rw [if_neg hwidth, if_pos hshort]
    by_cases hmin : ofLittleEndian (tail.take lengthWidth) < minBody
    · rw [if_pos hmin, if_pos ⟨Nat.not_lt.mp hwidth, hmin⟩]
    · rw [if_neg hmin, if_neg fun hboth => hmin hboth.2]

theorem readAll_unfinished (h : Unfinished tail) : readAll tail = ([], breakOff tail) := by
  have hread : read tail = match breakOff tail with
      | none => .ok none
      | some cause => .error cause := by
    unfold read breakOff
    rw [front_unfinished h]
    by_cases hwidth : tail.length < lengthWidth
    · simp [hwidth, Nat.not_le.mpr hwidth]
    · by_cases hmin : announced tail < minBody
      · simp [hwidth, hmin, Nat.not_lt.mp hwidth]
      · simp [hwidth, hmin]
  rw [readAll]
  cases hend : breakOff tail <;> split <;> simp_all

theorem readAll_carries (h : Carries wire f) (more : Bytes) :
    readAll (wire ++ more) = (f :: (readAll more).1, (readAll more).2) := by
  obtain ⟨body, hmin, hmax, hof, rfl⟩ := h
  have hread : read (littleEndian lengthWidth body.length ++ body ++ more) = .ok (some (f, more)) := by
    unfold read
    rw [List.append_assoc, front_append hmin hmax hof more]
  rw [readAll]
  split <;> simp_all

/-- Whole frames are read one after another, and reading goes on behind the last of them. -/
theorem readAll_flatten (h : List.Forall₂ Carries wires frames) (tail : Bytes) :
    readAll (wires.flatten ++ tail) = (frames ++ (readAll tail).1, (readAll tail).2) := by
  induction h with
  | nil => rfl
  | cons hfirst _ ih =>
    rw [List.flatten_cons, List.append_assoc, readAll_carries hfirst, ih]
    rfl

theorem breakOff_eq_none_iff : breakOff tail = none ↔ tail = [] ∨ ∃ b, tail = [b] := by
  have hnone : breakOff tail = none ↔ tail.length < lengthWidth := by
    unfold breakOff
    split_ifs <;> simp_all
  rw [hnone]
  match tail with
  | [] => simp [lengthWidth]
  | [b] => simp [lengthWidth]
  | _ :: _ :: rest => simp [lengthWidth]

/-- Of a stream of whole frames and an unfinished one the whole frames are read, in their order. Behind them
stands the end of the stream just if nothing is left, or a single byte; if more is left, an error. -/
theorem cut_stream_end (hwhole : List.Forall₂ Carries wires frames) (hcut : Unfinished tail) :
    readAll (wires.flatten ++ tail) = (frames, breakOff tail) ∧
      (breakOff tail = none ↔ tail = [] ∨ ∃ b, tail = [b]) := by
  refine ⟨?_, breakOff_eq_none_iff⟩
  rw [readAll_flatten hwhole, readAll_unfinished hcut, List.append_nil]

/-- A request with two bytes of payload. -/
def greeting : Frame := ⟨⟨9⟩, .forRequest ⟨5⟩ .platform 0x51, [0x6F, 0x6B]⟩

def greetingWire : Bytes := [6, 0, 9, 0x85, 2, 0x51, 0x6F, 0x6B]

theorem carries_greeting : Carries greetingWire greeting :=
  ⟨greetingWire.drop 2, by decide, by decide, rfl, rfl⟩

/-- The stream is cut in the payload of its second frame. -/
theorem cut_stream_end_payload :
    List.Forall₂ Carries [greetingWire] [greeting] ∧ Unfinished (greetingWire.take 7) ∧
      readAll (greetingWire ++ greetingWire.take 7) = ([greeting], some .closed) := by
  have hwhole : List.Forall₂ Carries [greetingWire] [greeting] := .cons carries_greeting .nil
  have hcut : Unfinished (greetingWire.take 7) := by decide
  exact ⟨hwhole, hcut, (cut_stream_end hwhole hcut).1⟩

/-- The first byte of a frame is taken for the end of the stream. -/
theorem lone_byte_ends_stream :
    List.Forall₂ Carries [greetingWire] [greeting] ∧ Unfinished (greetingWire.take 1) ∧
      greetingWire.take 1 ≠ [] ∧ readAll (greetingWire ++ greetingWire.take 1) = ([greeting], none) := by
  have hcut : Unfinished (greetingWire.take 1) := by decide
  refine ⟨.cons carries_greeting .nil, hcut, by decide, ?_⟩
  rw [readAll_carries carries_greeting, readAll_unfinished hcut]
  rfl

end DescriptorExchange.Frame
