import DescriptorExchange.Proofs.Record.Association
import DescriptorExchange.Record.StateEffecter

/-!
Replacing the container in a state effecter record. The record stays readable and nothing else
about it changes, and of several replacements only the last one shows.
-/
namespace DescriptorExchange.StateEffecter

variable {record : Bytes} {header : RecordHeader} {e : StateEffecter}

/-- The container stands at its offset, whatever it is. -/
theorem decodeRecord_shape (h : decodeRecord StateEffecter record = .ok (header, e)) :
    ∃ front back, front.length = containerOffset ∧
      record = front ++ word16 e.entity.container ++ back ∧
      ∀ c, decodeRecord StateEffecter (front ++ word16 c ++ back) =
        .ok (header, { e with entity.container := c }) := by
  obtain ⟨body, rest, hsplit, htype, hbody⟩ := decodeRecord_eq_ok.mp h
  obtain ⟨hcode, tail, rfl, hlen⟩ := RecordHeader.split_eq_ok.mp hsplit
  change reader body = _ at hbody
  simp only [reader, Reader.bind_eq_ok, Reader.word16_eq_ok, Entity.reader_eq_ok, Reader.byte_eq_ok,
    Reader.pure_eq_ok] at hbody
  obtain ⟨terminus, _, rfl, id, _, rfl, entity, _, rfl, semantic, _, rfl, init, _, rfl,
    description, more,
    rfl, states, rest, hstates, rfl, rfl⟩ := hbody
  have hread (c : UInt16) : reader (word16 terminus ++ (word16 id ++
      (word16 entity.type ++ word16 entity.number ++ word16 c ++
        (word16 semantic ++ init :: description :: more)))) =
      .ok (⟨terminus, id, { entity with container := c }, semantic, init, description ≠ 0, states⟩,
        rest) := by
    simp only [reader, Reader.bind_eq_ok, Reader.word16_eq_ok, Entity.reader_eq_ok,
      Reader.byte_eq_ok,
      Reader.pure_eq_ok]
    exact ⟨terminus, _, rfl, id, _, rfl, { entity with container := c }, _, rfl, semantic, _,
      rfl, init, _,
      rfl, description, more, rfl, states, _, hstates, rfl, rfl⟩
  refine ⟨header.encode ++ word16 terminus ++ word16 id ++ word16 entity.type ++
      word16 entity.number,
    word16 semantic ++ init :: description :: more ++ tail, ?_, ?_, fun c => ?_⟩
  · simp [containerOffset, RecordHeader.length]
  · simp [Entity.encode]
  · refine decodeRecord_eq_ok.mpr ⟨_, rest, RecordHeader.split_eq_ok.mpr ⟨hcode, tail, ?_, ?_⟩,
      htype, hread c⟩
    · simp
    · rw [← hlen]
      simp [Entity.encode]

/-- Replacing the container in a readable record succeeds and changes the container alone. -/
theorem setContainer_spec (h : decodeRecord StateEffecter record = .ok (header, e)) (c : UInt16) :
    ∃ patched, setContainer c record = .ok patched ∧
      decodeRecord StateEffecter patched = .ok (header, { e with entity.container := c }) ∧
      ∀ d, setContainer d patched = setContainer d record := by
  obtain ⟨front, back, hfront, rfl, hdecode⟩ := decodeRecord_shape h
  have hset (old d : UInt16) : setContainer d (front ++ word16 old ++ back) =
      .ok (front ++ word16 d ++ back) := by
    rw [setContainer, ← hfront]
    exact overwrite_append (by simp)
  exact ⟨_, hset _ c, hdecode c, fun d => by rw [hset, hset]⟩

end DescriptorExchange.StateEffecter
