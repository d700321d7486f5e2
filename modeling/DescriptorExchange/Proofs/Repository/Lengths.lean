import DescriptorExchange.Proofs.Repository.Relisting

/-!
How long records get. Overwriting a field leaves a record as long as it was, and an association
record is as long as the number of its children says, which a byte can tell. So nothing but storing
makes a repository hold a record longer than those it held and longer than an association record can
be.
-/
namespace DescriptorExchange

namespace Association

/-- The length of an association record with as many children as one can have. -/
def longestRecord : Nat := RecordHeader.length + 10 + 6 * maxChildren

theorem length_encodeRecordAs_le {a : Association} (hlen : a.children.length ≤ maxChildren)
    (k : RecordHandle) (changeNumber : UInt16) :
    (encodeRecordAs k changeNumber a).length ≤ longestRecord := by
  have hbody : (RecordBody.encode a).length = 10 + 6 * a.children.length := a.length_encode
  simp only [encodeRecordAs, List.length_append, RecordHeader.length_encode, hbody, longestRecord]
  omega

theorem length_children_of_decode {record : Bytes} {header : RecordHeader} {a : Association}
    (h : decodeRecord Association record = .ok (header, a)) : a.children.length ≤ maxChildren := by
  obtain ⟨body, rest, -, -, hbody⟩ := decodeRecord_eq_ok.mp h
  exact (reader_eq_ok.mp hbody).1

end Association

namespace Repository

variable {r s : Repository} {limit : Nat} {k : RecordHandle} {a : Association}

/-- No record is longer than a limit. -/
def Capped (r : Repository) (limit : Nat) : Prop :=
  ∀ k record, r.get? k = some record → record.bytes.length ≤ limit

theorem capped_empty (own host : HandleRange) : (empty own host).Capped limit := by
  intro k record hget
  simp [get?, empty] at hget

theorem length_children_of_association {header : RecordHeader}
    (h : r.association k = .ok (header, a)) : a.children.length ≤ Association.maxChildren := by
  unfold association at h
  cases hget : r.get? k with
  | none => simp [hget] at h
  | some record =>
    cases hdecode : decodeRecord Association record.bytes with
    | error e => simp [hget, hdecode, Except.mapError] at h
    | ok found =>
      simp only [hget, hdecode, Except.mapError] at h
      obtain rfl := Except.ok.inj h
      exact Association.length_children_of_decode hdecode

namespace Capped

theorem put {record : Record} (h : r.Capped limit) (hlen : record.bytes.length ≤ limit) :
    (r.put k record).Capped limit := by
  intro j other hget
  rw [get?_put] at hget
  split_ifs at hget
  · obtain rfl := Option.some.inj hget
    exact hlen
  · exact h j other hget

theorem erase (h : r.Capped limit) (k : RecordHandle) : (r.erase k).Capped limit := by
  intro j other hget
  rw [get?_erase] at hget
  split_ifs at hget
  exact h j other hget

theorem removeRange (h : r.Capped limit) (range : HandleRange) :
    (r.removeRange range).1.Capped limit := by
  intro j other hget
  rw [get?_removeRange] at hget
  split_ifs at hget
  exact h j other hget

/-- A stored record is as long as what was stored. -/
theorem insert {origin : Origin} {bytes : Bytes} (h : r.Capped limit) (hlen : bytes.length ≤ limit)
    (hinsert : r.insert origin bytes = .ok (s, k)) : s.Capped limit := by
  obtain ⟨header, body, stored, -, -, hset, rfl⟩ := insert_eq_ok.mp hinsert
  exact h.put ((length_overwrite hset).le.trans hlen)

section edits

variable (hlimit : Association.longestRecord ≤ limit)
include hlimit

theorem putAssociation (h : r.Capped limit) (hlen : a.children.length ≤ Association.maxChildren)
    (k : RecordHandle) (changeNumber : UInt16) :
    (r.putAssociation k changeNumber a).Capped limit := by
  rw [putAssociation_eq]
  split
  · exact h
  · exact h.put ((Association.length_encodeRecordAs_le hlen k changeNumber).trans hlimit)

theorem dropChild (h : r.Capped limit) (hlen : a.children.length ≤ Association.maxChildren)
    (k : RecordHandle) (header : RecordHeader) (child : Entity) :
    (r.dropChild k header a child).Capped limit := by
  simp only [Repository.dropChild]
  split_ifs
  · exact h.erase k
  · exact h.putAssociation hlimit ((List.length_filter_le ..).trans hlen) k header.changeNumber

theorem removeChild {child : Entity} {changed : Bool} (h : r.Capped limit)
    (hremove : r.removeChild k child = .ok (s, changed)) : s.Capped limit := by
  obtain ⟨header, a, ha, ⟨-, rfl, -⟩ | ⟨-, rfl, -⟩⟩ := removeChild_eq_ok.mp hremove
  · exact h.dropChild hlimit (length_children_of_association ha) k header child
  · exact h

theorem addChild {child : Entity} {changed : Bool} (h : r.Capped limit)
    (hadd : r.addChild k child = .ok (s, changed)) : s.Capped limit := by
  obtain ⟨header, a, ha, ⟨-, rfl, -⟩ | ⟨-, hroom, -, rfl⟩⟩ := addChild_eq_ok hadd
  · exact h
  · have hlen := length_children_of_association ha
    refine h.putAssociation hlimit ?_ k header.changeNumber
    rw [List.length_append, List.length_singleton]
    omega

theorem associate {parent child : Entity} {kind : UInt8} {changed : Bool} (h : r.Capped limit)
    (hassociate : r.associate parent kind child = .ok (s, k, changed)) : s.Capped limit := by
  rcases associate_eq_ok hassociate with ⟨-, hadd⟩ | ⟨-, -, hcreate⟩
  · exact h.addChild hlimit hadd
  · have hone : [child].length ≤ Association.maxChildren := Nat.le_add_left 1 254
    exact h.insert ((Association.length_encodeRecordAs_le hone _ _).trans hlimit) hcreate

theorem strip (h : r.Capped limit) (e : Entity) (range : HandleRange) :
    (r.strip e range).1.Capped limit :=
  strip_induction (p := fun s => s.Capped limit) (fun _ k hs => hs.erase k)
    (fun _ k _ header _ hdecode hs =>
      hs.dropChild hlimit (Association.length_children_of_decode hdecode) k header e) h

end edits

theorem setEffecterContainer (h : r.Capped limit) (effecterId container : UInt16) :
    (r.setEffecterContainer effecterId container).1.Capped limit := by
  rcases r.setEffecterContainer_eq effecterId container with
    heq | ⟨k, record, bytes, hget, -, -, hset, heq⟩
  · rw [heq]
    exact h
  · rw [heq]
    exact h.put ((length_overwrite hset).le.trans (h k record hget))

theorem setLocatorValidity (h : r.Capped limit) (terminusHandle : UInt16) (valid : Bool) :
    (r.setLocatorValidity terminusHandle valid).1.Capped limit := by
  intro k record hget
  rw [get?_setLocatorValidity] at hget
  obtain ⟨old, hold, rfl⟩ := Option.map_eq_some_iff.mp hget
  rcases revalidated_cases terminusHandle valid old with heq | ⟨bytes, -, hset, heq⟩
  · rw [heq]
    exact h k old hold
  · rw [heq]
    exact (length_overwrite hset).le.trans (h k old hold)

end Capped

end Repository
end DescriptorExchange
