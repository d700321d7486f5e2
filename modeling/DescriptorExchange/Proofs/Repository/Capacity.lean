import DescriptorExchange.Proofs.Repository.Relisting
import Mathlib.Data.List.Perm.Subperm

/-!
The limits of a repository. Storing a record that can be read fails only when every handle of the
range is taken, and listing a child fails only then or when the record for its parent lists as many
children as a record can.
-/
namespace DescriptorExchange.Repository

variable {r : Repository} {range : HandleRange} {k : RecordHandle} {parent child : Entity}
  {kind : UInt8} {e : RepositoryError}

/-- Every handle of the range is taken. -/
def Full (r : Repository) (range : HandleRange) : Prop :=
  ∀ k, range.contains k = true → (r.get? k).isSome

/-- The limit that an error reports has been reached. -/
inductive Exhausted (r : Repository) : RepositoryError → Prop
  | range (origin : Origin) (h : r.Full (r.range origin)) :
      r.Exhausted (.noFreeHandle (r.range origin))
  | record {k : RecordHandle} {a : Association} (ha : r.Holds k a)
      (hfull : a.children.length = Association.maxChildren) : r.Exhausted (.associationFull k)

/-- A search that finds no free handle has gone through the range, or it has come upon as many
records as it may try. -/
theorem firstFree?_eq_none {last first : RecordHandle} {tries : Nat} (hle : first ≤ last)
    (h : r.firstFree? last tries first = none) :
    (∀ k, first ≤ k → k ≤ last → (r.get? k).isSome) ∨
      ∃ visited : List RecordHandle, visited.length = tries ∧ visited.Nodup ∧
        ∀ k ∈ visited, first ≤ k ∧ (r.get? k).isSome := by
  induction tries generalizing first with
  | zero => exact .inr ⟨[], rfl, .nil, by simp⟩
  | succ tries ih =>
    unfold firstFree? at h
    split_ifs at h with hfree hlast
    · left
      intro k hk hkl
      rw [← UInt32.le_antisymm hk (hlast ▸ hkl)]
      exact mem_records.mp hfree
    · have hheld : (r.get? first).isSome := mem_records.mp hfree
      have hlt : first.toNat < last.toNat := by
        have := UInt32.le_iff_toNat_le.mp hle
        have : first.toNat ≠ last.toNat := fun he => hlast (UInt32.toNat_inj.mp he)
        omega
      have hnext := RecordHandle.toNat_succ_of_lt hlt
      rcases ih (UInt32.le_iff_toNat_le.mpr (by omega)) h with hall | ⟨visited, hlen, hnodup, hmem⟩
      · left
        intro k hk hkl
        by_cases hfirst : k = first
        · rwa [hfirst]
        · refine hall k (UInt32.le_iff_toNat_le.mpr ?_) hkl
          have := UInt32.le_iff_toNat_le.mp hk
          have : k.toNat ≠ first.toNat := fun he => hfirst (UInt32.toNat_inj.mp he)
          omega
      · have hbehind (k : RecordHandle) (hk : k ∈ visited) : first.toNat < k.toNat := by
          have := UInt32.le_iff_toNat_le.mp (hmem k hk).1
          omega
        refine .inr ⟨first :: visited, by simp [hlen], ?_, fun k hk => ?_⟩
        · exact List.nodup_cons.mpr ⟨fun hin => Nat.lt_irrefl _ (hbehind first hin), hnodup⟩
        · rcases List.mem_cons.mp hk with rfl | hk
          · exact ⟨UInt32.le_refl _, hheld⟩
          · exact ⟨UInt32.le_iff_toNat_le.mpr (Nat.le_of_lt (hbehind k hk)), (hmem k hk).2⟩

/-- There are not more records than there are. -/
theorem length_le_of_nodup {visited : List RecordHandle} (hnodup : visited.Nodup)
    (hheld : ∀ k ∈ visited, (r.get? k).isSome) : visited.length ≤ r.records.size := by
  have hsub : visited ⊆ r.toList.map Prod.fst := fun k hk => by
    obtain ⟨record, hget⟩ := Option.isSome_iff_exists.mp (hheld k hk)
    exact List.mem_map.mpr ⟨(k, record), mem_toList.mpr hget, rfl⟩
  have hlen := (List.Nodup.subperm hnodup hsub).length_le
  rwa [List.length_map, toList, Std.ExtTreeMap.length_toList] at hlen

/-- No handle is free only when all are taken. -/
theorem nextFree?_eq_none (hr : range.first ≤ range.last) (h : r.nextFree? range = none) :
    r.Full range := by
  unfold nextFree? at h
  split at h
  next => simp at h
  next last hlast =>
    split_ifs at h
    rcases firstFree?_eq_none hr h with hall | ⟨visited, hlen, hnodup, hmem⟩
    · intro k hk
      obtain ⟨hfirst, hlast⟩ := HandleRange.contains_iff.mp hk
      exact hall k hfirst hlast
    · have hle := length_le_of_nodup hnodup fun k hk => (hmem k hk).2
      omega

theorem slot?_eq_none {origin : Origin} (hr : (r.range origin).first ≤ (r.range origin).last)
    (h : r.slot? origin k = none) : r.Full (r.range origin) := by
  unfold slot? at h
  split_ifs at h
  exact nextFree?_eq_none hr h

section insert

variable {origin : Origin} {bytes body : Bytes} {header : RecordHeader}

/-- Storing a record that can be read fails only for want of a free handle, and then always. -/
theorem insert_eq_error_iff (hr : (r.range origin).first ≤ (r.range origin).last)
    (hsplit : RecordHeader.split bytes = .ok (header, body)) :
    r.insert origin bytes = .error e ↔
      r.Full (r.range origin) ∧ e = .noFreeHandle (r.range origin) := by
  cases hslot : r.slot? origin header.handle with
  | none =>
    have hinsert : r.insert origin bytes = .error (.noFreeHandle (r.range origin)) := by
      simp only [insert_eq, hsplit, Except.mapError, bind, Except.bind, hslot]
    rw [hinsert, Except.error.injEq]
    exact ⟨fun h => ⟨slot?_eq_none hr hslot, h.symm⟩, fun h => h.2.symm⟩
  | some k =>
    -- The handle that was found is free, so the range is not full.
    obtain ⟨hin, hfree⟩ := slot?_spec origin hr hslot
    obtain ⟨stored, hstored, -⟩ := setRecordHandle_of_split hsplit k
    rw [insert_eq_ok.mpr ⟨header, body, stored, hsplit, hslot, hstored, rfl⟩]
    refine ⟨fun h => by simp at h, fun h => ?_⟩
    have htaken := h.1 k hin
    simp [hfree] at htaken

theorem exhausted_of_insert (hr : (r.range origin).first ≤ (r.range origin).last)
    (hsplit : RecordHeader.split bytes = .ok (header, body))
    (h : r.insert origin bytes = .error e) : r.Exhausted e := by
  obtain ⟨hfull, rfl⟩ := (insert_eq_error_iff hr hsplit).mp h
  exact .range origin hfull

end insert

theorem exhausted_of_addChild {a : Association} (ha : r.Holds k a)
    (h : r.addChild k child = .error e) : r.Exhausted e := by
  simp only [addChild, association_of_holds ha, bind, Except.bind, pure, Except.pure] at h
  split_ifs at h with hmem hfull
  obtain rfl := Except.error.inj h
  exact .record ha hfull

/-- A new record for a parent and a kind can be made unless the range is full. -/
theorem createAssociation_eq_error_iff (hrange : r.ownRange.first ≤ r.ownRange.last) :
    r.createAssociation parent kind child = .error e ↔
      r.Full r.ownRange ∧ e = .noFreeHandle r.ownRange := by
  have hproper := Association.proper_single child.container kind parent child
  obtain ⟨_, _, hsplit, -⟩ := decodeRecord_eq_ok.mp
    (decodeRecord_listing (k := RecordHandle.terminator) hproper)
  have hown : (r.range .own).first ≤ (r.range .own).last := hrange
  exact insert_eq_error_iff hown hsplit

/-- Listing a child under its parent. -/
theorem exhausted_of_associate (hr : r.Tidy) (hrange : r.ownRange.first ≤ r.ownRange.last)
    (h : r.associate parent kind child = .error e) : r.Exhausted e := by
  unfold associate at h
  cases hfind : r.findAssociation? parent kind r.ownRange with
  | some k =>
    obtain ⟨⟨a, ha, -⟩, -⟩ := hr.findAssociation?_eq_some.mp hfind
    simp only [hfind] at h
    cases hadd : r.addChild k child with
    | ok added => simp [hadd, Except.map] at h
    | error e' =>
      simp only [hadd, Except.map] at h
      exact Except.error.inj h ▸ exhausted_of_addChild ha hadd
  | none =>
    simp only [hfind] at h
    cases hcreate : r.createAssociation parent kind child with
    | ok created => simp [hcreate, Except.map] at h
    | error e' =>
      simp only [hcreate, Except.map] at h
      obtain ⟨hfull, rfl⟩ := (createAssociation_eq_error_iff hrange).mp hcreate
      exact Except.error.inj h ▸ .range .own hfull

end DescriptorExchange.Repository
