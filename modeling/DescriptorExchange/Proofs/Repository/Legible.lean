import DescriptorExchange.Proofs.Repository.Lengths
import DescriptorExchange.Proofs.Repository.Rewriting

/-!
Association records that can be read stay so. The controller writes them itself: listing a child and
taking it out again rewrites a record that was read before, and nothing else is put in its place but a
record of the host, which has a handle in another range.
-/
namespace DescriptorExchange.Repository

/-- What is under the handle, if anything, is an association record that can be read. -/
def Legible (r : Repository) (k : RecordHandle) : Prop :=
  ∀ record, r.get? k = some record → record.type = .entityAssociation ∧
    ∃ found, decodeRecord Association record.bytes = .ok found

variable {r s : Repository} {j k : RecordHandle} {a : Association} {parent child e : Entity}
  {kind : UInt8} {changed : Bool}

theorem Legible.association (h : r.Legible k) {record : Record} (hget : r.get? k = some record) :
    ∃ found, r.association k = .ok found := by
  obtain ⟨-, found, hread⟩ := h record hget
  exact ⟨found, by simp only [Repository.association, hget, hread, Except.mapError]⟩

/-- A child can be taken out of a record that is there. -/
theorem Legible.removeChild_isOk (h : r.Legible k) {record : Record} (hget : r.get? k = some record)
    (child : Entity) : ∃ result, r.removeChild k child = .ok result := by
  obtain ⟨⟨header, a⟩, ha⟩ := h.association hget
  simp only [removeChild, ha, bind, Except.bind, pure, Except.pure]
  split_ifs <;> exact ⟨_, rfl⟩

namespace Legible

theorem congr (h : r.Legible k) (hget : s.get? k = r.get? k) : s.Legible k := by
  unfold Legible
  rwa [hget]

theorem erase (h : r.Legible k) (j : RecordHandle) : (r.erase j).Legible k := by
  intro record hget
  rw [get?_erase] at hget
  split_ifs at hget
  exact h record hget

/-- Fix-ups and marks leave association records alone. -/
theorem rewritten (h : r.Legible k) (hrs : Rewritten r s) : s.Legible k := by
  intro record hget
  obtain ⟨old, hold, htype, -⟩ := label?_eq_some.mp ((hrs.label k).symm.trans (label?_of_get? hget))
  have hassociation : record.type = .entityAssociation := htype.symm.trans (h old hold).1
  exact h record ((hrs.kept hassociation).mp hget)

theorem putAssociation (h : r.Legible k) (hlen : a.children.length ≤ Association.maxChildren)
    (j : RecordHandle) (changeNumber : UInt16) : (r.putAssociation j changeNumber a).Legible k := by
  by_cases hk : k = j
  · subst hk
    rw [putAssociation_eq]
    cases hget : r.get? k with
    | none => exact h
    | some old =>
      intro record hput
      rw [get?_put_self, Option.some.injEq] at hput
      subst hput
      exact ⟨(h old hget).1, _, Association.decodeRecord_encodeRecordAs hlen k changeNumber⟩
  · exact h.congr (get?_putAssociation_ne changeNumber a hk)

theorem dropChild (h : r.Legible k) (hlen : a.children.length ≤ Association.maxChildren)
    (j : RecordHandle) (header : RecordHeader) (child : Entity) :
    (r.dropChild j header a child).Legible k := by
  simp only [Repository.dropChild]
  split_ifs
  · exact h.erase j
  · exact h.putAssociation ((List.length_filter_le ..).trans hlen) j header.changeNumber

theorem removeChild (h : r.Legible k) (hremove : r.removeChild j child = .ok (s, changed)) :
    s.Legible k := by
  obtain ⟨header, a, ha, ⟨-, rfl, -⟩ | ⟨-, rfl, -⟩⟩ := removeChild_eq_ok.mp hremove
  · exact h.dropChild (length_children_of_association ha) j header child
  · exact h

theorem strip (h : r.Legible k) (e : Entity) (range : HandleRange) :
    (r.strip e range).1.Legible k :=
  strip_induction (p := fun s => s.Legible k) (fun _ j hs => hs.erase j)
    (fun _ j _ header _ hdecode hs =>
      hs.dropChild (Association.length_children_of_decode hdecode) j header e) h

theorem addChild (h : r.Legible k) (hadd : r.addChild j child = .ok (s, changed)) :
    s.Legible k := by
  obtain ⟨header, a, ha, ⟨-, rfl, -⟩ | ⟨-, hroom, -, rfl⟩⟩ := addChild_eq_ok hadd
  · exact h
  · have hlen := length_children_of_association ha
    refine h.putAssociation ?_ j header.changeNumber
    rw [List.length_append, List.length_singleton]
    omega

/-- A record of the host is stored in its own range. -/
theorem insert_host {bytes : Bytes} (h : r.Legible k) (hrange : r.hostRange.first ≤ r.hostRange.last)
    (hout : r.hostRange.contains k = false) (hinsert : r.insert .host bytes = .ok (s, j)) :
    s.Legible k := by
  obtain ⟨header, body, stored, -, hslot, -, -⟩ := insert_eq_ok.mp hinsert
  obtain ⟨hin, -⟩ := slot?_spec .host hrange hslot
  refine h.congr (get?_of_insert hinsert ?_)
  rintro rfl
  exact Bool.false_ne_true (hout.symm.trans hin)

end Legible

/-- A new association record lists one child and can be read. -/
theorem legible_of_createAssociation (h : r.createAssociation parent kind child = .ok (s, k)) :
    s.Legible k := by
  have hproper := Association.proper_single child.container kind parent child
  rw [createAssociation_eq] at h
  cases hslot : r.slot? .own RecordHandle.terminator with
  | none => simp [hslot] at h
  | some j =>
    simp only [hslot] at h
    obtain ⟨rfl, rfl⟩ := Prod.mk.inj (Except.ok.inj h)
    intro record hget
    obtain rfl := Option.some.inj ((get?_put_self ..).symm.trans hget)
    exact ⟨rfl, _, decodeRecord_listing hproper⟩

theorem legible_of_findAssociation? {range : HandleRange}
    (h : r.findAssociation? parent kind range = some k) : r.Legible k := by
  obtain ⟨⟨j, header, a⟩, hfound, rfl⟩ := Option.map_eq_some_iff.mp h
  obtain ⟨record, hget, -, htype, hread⟩ := mem_associations.mp (List.mem_of_find?_eq_some hfound)
  intro other hother
  obtain rfl := Option.some.inj (hget.symm.trans hother)
  exact ⟨htype, _, hread⟩

/-- Listing a child keeps legible what is, and the record that lists it is. -/
theorem legible_of_associate (h : r.associate parent kind child = .ok (s, k, changed)) :
    s.Legible k ∧ ∀ j, r.Legible j → s.Legible j := by
  rcases associate_eq_ok h with ⟨hfind, hadd⟩ | ⟨-, -, hcreate⟩
  · exact ⟨(legible_of_findAssociation? hfind).addChild hadd, fun j hj => hj.addChild hadd⟩
  · have hk := legible_of_createAssociation hcreate
    refine ⟨hk, fun j hj => ?_⟩
    by_cases hjk : j = k
    · exact hjk ▸ hk
    · exact hj.congr (get?_of_insert hcreate hjk)

end DescriptorExchange.Repository
