import DescriptorExchange.Proofs.Repository.Relisting

/-!
Records changed in place. Fix-ups and marks write new bytes into records that are not association
records, so they change no listing, no type and no origin.
-/
namespace DescriptorExchange.Repository

variable {r s : Repository} {k : RecordHandle} {a : Association}

/-- What does not change about a record that is not an association record. -/
def label? (r : Repository) (k : RecordHandle) : Option (RecordType × Origin) :=
  (r.get? k).map fun record => (record.type, record.origin)

theorem label?_eq_some {label : RecordType × Origin} : r.label? k = some label ↔
    ∃ record, r.get? k = some record ∧ record.type = label.1 ∧ record.origin = label.2 := by
  simp [label?, Prod.ext_iff]

theorem label?_of_get? {record : Record} (h : r.get? k = some record) :
    r.label? k = some (record.type, record.origin) := by rw [label?, h, Option.map_some]

/-- Only bytes of records that are not association records differ. -/
structure Rewritten (r s : Repository) : Prop where
  ownRange : s.ownRange = r.ownRange
  hostRange : s.hostRange = r.hostRange
  label : ∀ k, s.label? k = r.label? k
  kept : ∀ {k record}, record.type = .entityAssociation →
    (s.get? k = some record ↔ r.get? k = some record)

namespace Rewritten

theorem refl (r : Repository) : Rewritten r r := ⟨rfl, rfl, fun _ => rfl, fun _ => Iff.rfl⟩

theorem symm (h : Rewritten r s) : Rewritten s r where
  ownRange := h.ownRange.symm
  hostRange := h.hostRange.symm
  label k := (h.label k).symm
  kept htype := (h.kept htype).symm

theorem trans {t : Repository} (hrs : Rewritten r s) (hst : Rewritten s t) : Rewritten r t where
  ownRange := hst.ownRange.trans hrs.ownRange
  hostRange := hst.hostRange.trans hrs.hostRange
  label k := (hst.label k).trans (hrs.label k)
  kept htype := (hst.kept htype).trans (hrs.kept htype)

theorem put {record : Record} (h : r.label? k = some (record.type, record.origin))
    (htype : record.type ≠ .entityAssociation) : Rewritten r (r.put k record) := by
  refine ⟨rfl, rfl, fun j => ?_, fun {j x} hx => ?_⟩
  · by_cases hj : j = k
    · subst hj
      rw [h, label?, get?_put_self, Option.map_some]
    · rw [label?, label?, get?_put_ne _ _ hj]
  · by_cases hj : j = k
    · subst hj
      obtain ⟨old, hold, htype', -⟩ := label?_eq_some.mp h
      rw [get?_put_self, hold]
      constructor
      · intro heq
        exact absurd (Option.some.inj heq ▸ hx) htype
      · intro heq
        exact absurd (htype'.symm.trans (Option.some.inj heq ▸ hx)) htype
    · rw [get?_put_ne _ _ hj]

theorem holds (h : Rewritten r s) : s.Holds k a ↔ r.Holds k a :=
  ⟨fun ha => ⟨h.ownRange ▸ ha.own, ha.proper, (h.kept rfl).mp ha.get⟩,
    fun ha => ⟨h.ownRange ▸ ha.own, ha.proper, (h.kept rfl).mpr ha.get⟩⟩

end Rewritten

/-- A fix-up of a state effecter record. -/
theorem setEffecterContainer_rewritten (r : Repository) (effecterId container : UInt16) :
    Rewritten r (r.setEffecterContainer effecterId container).1 := by
  rcases r.setEffecterContainer_eq effecterId container with
    heq | ⟨k, record, bytes, hget, -, htype, -, heq⟩
  · rw [heq]
    exact .refl r
  · rw [heq]
    have hlabel := label?_of_get? hget
    refine .put hlabel ?_
    simp [htype]

/-- Marking the locator records of a terminus. -/
theorem setLocatorValidity_rewritten (r : Repository) (terminusHandle : UInt16) (valid : Bool) :
    Rewritten r (r.setLocatorValidity terminusHandle valid).1 := by
  refine ⟨by simp, by simp, fun k => ?_, fun htype => get?_setLocatorValidity_of_type r _ _ ?_⟩
  · rw [label?, label?, get?_setLocatorValidity, Option.map_map]
    rfl
  · rw [htype]
    decide

end DescriptorExchange.Repository
