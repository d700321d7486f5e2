import DescriptorExchange.Proofs.Repository.Capacity

/-!
Which handle a record gets depends on which handles of its range are taken, and on nothing else that the
repository holds.
-/
namespace DescriptorExchange.Repository

variable {r s : Repository} {range : HandleRange} {k : RecordHandle}

/-- The same handles of the range are taken. -/
def Taken (range : HandleRange) (r s : Repository) : Prop :=
  ∀ k, range.contains k = true → ((s.get? k).isSome ↔ (r.get? k).isSome)

theorem Taken.symm (h : Taken range r s) : Taken range s r := fun k hk => (h k hk).symm

theorem Taken.free (h : Taken range r s) (hk : range.contains k = true) (hfree : r.get? k = none) :
    s.get? k = none := by
  rw [← Option.not_isSome_iff_eq_none, h k hk]
  simp [hfree]

theorem Taken.lastHandle? (h : Taken range r s) : s.lastHandle? range = r.lastHandle? range := by
  have hkeys (r : Repository) : ((r.inRange range).map Prod.fst).Pairwise (· < ·) :=
    List.pairwise_map.mpr (r.toList_pairwise.filter _)
  have hmem (r : Repository) (k : RecordHandle) :
      k ∈ (r.inRange range).map Prod.fst ↔ (r.get? k).isSome ∧ range.contains k = true := by
    simp [mem_inRange, Option.isSome_iff_exists]
  have hsame : (s.inRange range).map Prod.fst = (r.inRange range).map Prod.fst := by
    refine Sorted.eq_of_mem_iff (fun a b (hab : a < b) => UInt32.lt_asymm hab) (hkeys s) (hkeys r)
      fun k => ?_
    rw [hmem, hmem]
    exact and_congr_left fun hk => h k hk
  simp only [Repository.lastHandle?, ← List.getLast?_map, hsame]

/-- No handle before the one that a search finds is free. -/
theorem firstFree?_least {last first : RecordHandle} {tries : Nat} (hle : first ≤ last)
    (h : r.firstFree? last tries first = some k) {j : RecordHandle} (hj : first ≤ j) (hlt : j < k) :
    (r.get? j).isSome := by
  induction tries generalizing first with
  | zero => simp [firstFree?] at h
  | succ tries ih =>
    unfold firstFree? at h
    split_ifs at h with htaken hlast
    · by_cases heq : j = first
      · rw [heq]
        exact mem_records.mp htaken
      · have hle' := UInt32.le_iff_toNat_le.mp hle
        have hj' := UInt32.le_iff_toNat_le.mp hj
        have hne : first.toNat ≠ last.toNat := fun he => hlast (UInt32.toNat_inj.mp he)
        have hne' : j.toNat ≠ first.toNat := fun he => heq (UInt32.toNat_inj.mp he)
        have hnext := RecordHandle.toNat_succ_of_lt (show first.toNat < last.toNat by omega)
        exact ih (UInt32.le_iff_toNat_le.mpr (by omega)) h (UInt32.le_iff_toNat_le.mpr (by omega))
    · obtain rfl := Option.some.inj h
      exact absurd hlt (UInt32.not_lt.mpr hj)

/-- A free handle that a search of the range comes to is not behind one that another search finds. -/
theorem Taken.firstFree?_le (h : Taken range r s) {tries : Nat} {j : RecordHandle}
    (hr : range.first ≤ range.last) (hk : r.firstFree? range.last tries range.first = some k)
    (hj : range.contains j = true) (hfree : s.get? j = none) : k ≤ j := by
  refine UInt32.not_lt.mp fun hlt => ?_
  have htaken := firstFree?_least hr hk (HandleRange.contains_iff.mp hj).1 hlt
  simp [h.symm.free hj hfree] at htaken

/-- The next free handle of a range is the same wherever the same handles are taken. -/
theorem Taken.nextFree? (h : Taken range r s) (hr : range.first ≤ range.last) :
    s.nextFree? range = r.nextFree? range := by
  -- A search finds a handle as long as there is a free one.
  have hfinds {r s : Repository} {k : RecordHandle} (h : Taken range r s)
      (hk : r.nextFree? range = some k) :
      s.nextFree? range ≠ none := by
    obtain ⟨hin, hfree⟩ := nextFree?_spec hr hk
    intro hnone
    have hfull := nextFree?_eq_none hr hnone k hin
    simp [h.free hin hfree] at hfull
  cases hk : r.nextFree? range with
  | none =>
    by_contra hsome
    obtain ⟨j, hj⟩ := Option.ne_none_iff_exists'.mp hsome
    exact absurd hk (hfinds h.symm hj)
  | some k =>
    obtain ⟨j, hj⟩ := Option.ne_none_iff_exists'.mp (hfinds h hk)
    obtain ⟨hkin, hkfree⟩ := nextFree?_spec hr hk
    obtain ⟨hjin, hjfree⟩ := nextFree?_spec hr hj
    rw [hj]
    unfold Repository.nextFree? at hk hj
    rw [h.lastHandle?] at hj
    split at hk
    next hlast =>
      rw [hlast] at hj
      exact hj.symm.trans hk
    next last hlast =>
      simp only [hlast] at hj
      split_ifs at hk hj with hroom
      · exact hj.symm.trans hk
      · have hle := h.firstFree?_le hr hk hjin hjfree
        have hge := h.symm.firstFree?_le hr hj hkin hkfree
        rw [UInt32.le_antisymm hle hge]

/-- So is the handle that a record of the host gets. -/
theorem Taken.slot? (h : Taken range r s) (hr : range.first ≤ range.last) (hrange : r.hostRange = range)
    (hrange' : s.hostRange = range) (own : RecordHandle) : s.slot? .host own = r.slot? .host own := by
  have hkeeps : (.host = Origin.host ∧ range.contains own = true ∧ own ∉ s.records) ↔
      (.host = Origin.host ∧ range.contains own = true ∧ own ∉ r.records) := by
    refine and_congr_right fun _ => and_congr_right fun hin => not_congr ?_
    rw [mem_records, mem_records]
    exact h own hin
  have hhost : r.range .host = range := hrange
  have hhost' : s.range .host = range := hrange'
  rw [Repository.slot?, Repository.slot?, hhost, hhost', h.nextFree? hr]
  exact if_congr hkeeps rfl rfl

end DescriptorExchange.Repository
