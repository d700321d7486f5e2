import DescriptorExchange.Proofs.Record.TerminusLocator
import DescriptorExchange.Proofs.Repository.Lengths

/-!
Copies of host records. Storing a record of the host copies it but for the handle, and marking the
locator of a terminus overwrites a single byte. So a stored record is a copy for as long as it is
there, whatever is done to the controller's own records.
-/
namespace DescriptorExchange

/-- Bytes of a record at this offset are not overwritten: they lie behind the handle and are not the
validity of a locator. -/
def RecordType.Fixes (type : RecordType) (offset : Nat) : Prop :=
  4 ≤ offset ∧ (type = .terminusLocator → offset ≠ TerminusLocator.validityOffset)

namespace Record

variable {x y z : Record} {record : Bytes}

/-- A record whose validity may have been overwritten since, if it is that of a locator. -/
structure Marked (x y : Record) : Prop where
  type : y.type = x.type
  origin : y.origin = x.origin
  length : y.bytes.length = x.bytes.length
  bytes : ∀ offset, x.type.Fixes offset → y.bytes[offset]? = x.bytes[offset]?

theorem Marked.refl (x : Record) : Marked x x := ⟨rfl, rfl, rfl, fun _ _ => rfl⟩

theorem Marked.trans (hxy : Marked x y) (hyz : Marked y z) : Marked x z where
  type := hyz.type.trans hxy.type
  origin := hyz.origin.trans hxy.origin
  length := hyz.length.trans hxy.length
  bytes offset h := (hyz.bytes offset (hxy.type ▸ h)).trans (hxy.bytes offset h)

/-- A stored copy of a record of the host: of the type its header gives, and with its bytes but for the
handle and the validity of a locator. -/
structure CopyOf (x : Record) (record : Bytes) : Prop where
  type : ∃ header body, RecordHeader.split record = .ok (header, body) ∧ x.type = header.type
  length : x.bytes.length = record.length
  bytes : ∀ offset, x.type.Fixes offset → x.bytes[offset]? = record[offset]?

theorem CopyOf.marked (h : x.CopyOf record) (hxy : Marked x y) : y.CopyOf record where
  type := hxy.type ▸ h.type
  length := hxy.length.trans h.length
  bytes offset hfixes :=
    (hxy.bytes offset (hxy.type ▸ hfixes)).trans (h.bytes offset (hxy.type ▸ hfixes))

end Record

namespace Repository

variable {r s t : Repository} {k : RecordHandle} {x y : Record} {record : Bytes}

/-- A stored record of the host is a copy of what was stored. -/
theorem copyOf_of_insert (h : r.insert .host record = .ok (s, k)) :
    ∃ x, s = r.put k x ∧ x.origin = .host ∧ x.CopyOf record := by
  obtain ⟨header, body, stored, hsplit, -, hset, rfl⟩ := insert_eq_ok.mp h
  refine ⟨⟨header.type, .host, stored⟩, rfl, rfl, ⟨header, body, hsplit, rfl⟩,
    length_overwrite hset, fun offset hfixes => ?_⟩
  refine getElem?_overwrite hset (.inr ?_)
  rw [length_word32]
  exact hfixes.1

/-- Each record is there, and marked at most. -/
structure Marks (r s : Repository) : Prop where
  ownRange : s.ownRange = r.ownRange
  hostRange : s.hostRange = r.hostRange
  record : ∀ k, (r.get? k = none ∧ s.get? k = none) ∨
    ∃ x y, r.get? k = some x ∧ s.get? k = some y ∧ x.Marked y

namespace Marks

theorem refl (r : Repository) : Marks r r := by
  refine ⟨rfl, rfl, fun k => ?_⟩
  cases h : r.get? k with
  | none => exact .inl ⟨rfl, rfl⟩
  | some x => exact .inr ⟨x, x, rfl, rfl, .refl x⟩

theorem trans (hrs : Marks r s) (hst : Marks s t) : Marks r t := by
  refine ⟨hst.ownRange.trans hrs.ownRange, hst.hostRange.trans hrs.hostRange, fun k => ?_⟩
  rcases hrs.record k with ⟨hr, hs⟩ | ⟨x, y, hr, hs, hxy⟩
  · rcases hst.record k with ⟨-, ht⟩ | ⟨y, -, hs', -⟩
    · exact .inl ⟨hr, ht⟩
    · simp [hs] at hs'
  · rcases hst.record k with ⟨hs', -⟩ | ⟨y', z, hs', ht, hyz⟩
    · simp [hs] at hs'
    · obtain rfl := Option.some.inj (hs.symm.trans hs')
      exact .inr ⟨x, z, hr, ht, hxy.trans hyz⟩

theorem get?_eq_some (h : Marks r s) (hget : r.get? k = some x) :
    ∃ y, s.get? k = some y ∧ x.Marked y := by
  rcases h.record k with ⟨hr, -⟩ | ⟨x', y, hr, hs, hxy⟩
  · simp [hget] at hr
  · obtain rfl := Option.some.inj (hget.symm.trans hr)
    exact ⟨y, hs, hxy⟩

theorem isSome_get? (h : Marks r s) (k : RecordHandle) : (s.get? k).isSome = (r.get? k).isSome := by
  rcases h.record k with ⟨hr, hs⟩ | ⟨x, y, hr, hs, -⟩
  · rw [hr, hs]
  · rw [hr, hs]
    rfl

end Marks

/-- Overwriting the validity of a locator marks it. -/
theorem marked_of_set {valid : Bool} {bytes : Bytes} (htype : x.type = .terminusLocator)
    (hset : TerminusLocator.setValidity valid x.bytes = .ok bytes) : x.Marked { x with bytes } := by
  refine ⟨rfl, rfl, length_overwrite hset, fun offset hfixes => ?_⟩
  have hne := hfixes.2 htype
  refine getElem?_overwrite hset ?_
  rw [List.length_singleton]
  omega

theorem setLocatorValidity_marks (r : Repository) (terminusHandle : UInt16) (valid : Bool) :
    Marks r (r.setLocatorValidity terminusHandle valid).1 := by
  refine ⟨by simp, by simp, fun k => ?_⟩
  rw [get?_setLocatorValidity]
  cases hget : r.get? k with
  | none => exact .inl ⟨rfl, rfl⟩
  | some x =>
    refine .inr ⟨x, _, rfl, rfl, ?_⟩
    rcases revalidated_cases terminusHandle valid x with heq | ⟨bytes, htype, hset, heq⟩
    · rw [heq]
      exact .refl x
    · rw [heq]
      exact marked_of_set htype hset

/-! What is done to the controller's own records is done outside the range of the host. -/

variable {range : HandleRange} {parent child e : Entity} {kind : UInt8} {changed : Bool}

theorem associate_ranges (h : r.associate parent kind child = .ok (s, k, changed)) :
    s.ownRange = r.ownRange ∧ s.hostRange = r.hostRange := by
  rcases associate_eq_ok h with ⟨-, hadd⟩ | ⟨-, -, hcreate⟩
  · obtain ⟨header, a, -, ⟨-, rfl, -⟩ | ⟨-, -, -, rfl⟩⟩ := addChild_eq_ok hadd
    · exact ⟨rfl, rfl⟩
    · exact ⟨putAssociation_ownRange _ _ _ _, putAssociation_hostRange _ _ _ _⟩
  · obtain ⟨_, _, _, -, -, -, rfl⟩ := insert_eq_ok.mp hcreate
    exact ⟨rfl, rfl⟩

/-- The record that lists a child is one of the controller's own. -/
theorem associate_own (hr : r.ownRange.first ≤ r.ownRange.last)
    (h : r.associate parent kind child = .ok (s, k, changed)) : r.ownRange.contains k = true := by
  rcases associate_eq_ok h with ⟨hfind, -⟩ | ⟨-, -, hcreate⟩
  · obtain ⟨entry, hentry, rfl⟩ := Option.map_eq_some_iff.mp hfind
    obtain ⟨record, -, hin, -⟩ := mem_associations.mp (List.mem_of_find?_eq_some hentry)
    exact hin
  · obtain ⟨header, _, _, -, hslot, -⟩ := insert_eq_ok.mp hcreate
    exact (slot?_spec .own hr hslot).1

theorem removeChild_ranges (h : r.removeChild k child = .ok (s, changed)) :
    s.ownRange = r.ownRange ∧ s.hostRange = r.hostRange := by
  obtain ⟨header, a, -, ⟨-, rfl, -⟩ | ⟨-, rfl, -⟩⟩ := removeChild_eq_ok.mp h
  · exact ⟨dropChild_ownRange _ _ _, dropChild_hostRange _ _ _⟩
  · exact ⟨rfl, rfl⟩

theorem get?_strip_of_not_contains (e : Entity) (hk : range.contains k = false) :
    (r.strip e range).1.get? k = r.get? k := by
  refine r.get?_strip_of_not_mem e range fun hmem => ?_
  obtain ⟨⟨j, header, a⟩, hentry, rfl⟩ := List.mem_map.mp hmem
  obtain ⟨record, -, hin, -⟩ := mem_associations.mp (List.mem_filter.mp hentry).1
  simp [hin] at hk

end Repository
end DescriptorExchange
