import DescriptorExchange.Proofs.Repository.Lookup

/-!
Storing a record. The handle a record gets is free, and lies in the range of its origin whenever
that range holds any handle at all.
-/
namespace DescriptorExchange

theorem HandleRange.contains_iff {range : HandleRange} {h : RecordHandle} :
    range.contains h = true ↔ range.first ≤ h ∧ h ≤ range.last := by
  simp [contains]

theorem RecordHandle.toNat_succ_of_lt {h last : RecordHandle} (hlt : h.toNat < last.toNat) :
    (h + 1).toNat = h.toNat + 1 := by
  have := last.toNat_lt
  rw [UInt32.toNat_add]
  simp only [UInt32.reduceToNat]
  omega

/-- The ranges of the two origins. A configuration whose ranges share a handle is refused, and a
range that ends before it begins cannot be asked for its records. -/
structure HandleRange.Apart (own host : HandleRange) : Prop where
  ownProper : own.first ≤ own.last
  hostProper : host.first ≤ host.last
  disjoint : own.overlaps host = false

/-- Ranges that share no handle. -/
theorem HandleRange.not_contains_of_apart {a b : HandleRange} (hab : a.overlaps b = false)
    {h : RecordHandle} (ha : a.contains h = true) : b.contains h = false := by
  rw [← Bool.not_eq_true, contains_iff]
  rintro ⟨hb₁, hb₂⟩
  obtain ⟨ha₁, ha₂⟩ := contains_iff.mp ha
  have hover : a.overlaps b = true := by
    simp only [overlaps, Bool.and_eq_true, decide_eq_true_eq]
    exact ⟨UInt32.le_trans ha₁ hb₂, UInt32.le_trans hb₁ ha₂⟩
  simp [hab] at hover

namespace Repository

variable {r s : Repository}

theorem lastHandle?_eq_none {range : HandleRange} (h : r.lastHandle? range = none)
    {k : RecordHandle} (hk : range.contains k = true) : r.get? k = none := by
  simp only [lastHandle?, Option.map_eq_none_iff, List.getLast?_eq_none_iff] at h
  cases hx : r.get? k with
  | none => rfl
  | some x =>
    have hmem := mem_inRange.mpr ⟨hx, hk⟩
    simp [h] at hmem

theorem lastHandle?_eq_some {range : HandleRange} {last : RecordHandle}
    (h : r.lastHandle? range = some last) :
    range.contains last = true ∧
      ∀ k x, r.get? k = some x → range.contains k = true → k ≤ last := by
  obtain ⟨⟨last', x⟩, hl, rfl⟩ := Option.map_eq_some_iff.mp h
  obtain ⟨front, hfront⟩ := List.getLast?_eq_some_iff.mp hl
  refine ⟨(mem_inRange.mp (List.mem_of_getLast? hl)).2, fun k y hk hin => ?_⟩
  have hmem := mem_inRange.mpr ⟨hk, hin⟩
  have hsorted : (r.inRange range).Pairwise fun a b => a.1 < b.1 := r.toList_pairwise.filter _
  rw [hfront, List.mem_append, List.mem_singleton] at hmem
  rw [hfront, List.pairwise_append] at hsorted
  rcases hmem with hmem | heq
  · exact UInt32.le_of_lt (hsorted.2.2 _ hmem _ (List.mem_singleton_self _))
  · obtain ⟨rfl, -⟩ := Prod.mk.injEq .. ▸ heq
    exact UInt32.le_refl _

theorem firstFree?_spec {last k : RecordHandle} {tries : Nat} {first : RecordHandle}
    (hle : first ≤ last) (h : r.firstFree? last tries first = some k) :
    first ≤ k ∧ k ≤ last ∧ r.get? k = none := by
  induction tries generalizing first with
  | zero => simp [firstFree?] at h
  | succ tries ih =>
    unfold firstFree? at h
    split at h
    next hfree =>
      obtain rfl := Option.some.inj h
      exact ⟨UInt32.le_refl _, hle, by simpa [mem_records] using hfree⟩
    next =>
      split at h
      next => simp at h
      next hne =>
        have hlt : first.toNat < last.toNat := by
          have := UInt32.le_iff_toNat_le.mp hle
          have : first.toNat ≠ last.toNat := fun he => hne (UInt32.toNat_inj.mp he)
          omega
        have hnext := RecordHandle.toNat_succ_of_lt hlt
        obtain ⟨h₁, h₂, h₃⟩ := ih (UInt32.le_iff_toNat_le.mpr (by omega)) h
        refine ⟨UInt32.le_iff_toNat_le.mpr ?_, h₂, h₃⟩
        have := UInt32.le_iff_toNat_le.mp h₁
        omega

theorem nextFree?_spec {range : HandleRange} {k : RecordHandle} (hr : range.first ≤ range.last)
    (h : r.nextFree? range = some k) : range.contains k = true ∧ r.get? k = none := by
  unfold nextFree? at h
  split at h
  next hnone =>
    obtain rfl := Option.some.inj h
    have hin : range.contains range.first = true :=
      HandleRange.contains_iff.mpr ⟨UInt32.le_refl _, hr⟩
    exact ⟨hin, lastHandle?_eq_none hnone hin⟩
  next last hlast =>
    obtain ⟨hin, hmax⟩ := lastHandle?_eq_some hlast
    split at h
    next hlt =>
      obtain rfl := Option.some.inj h
      have hnext := RecordHandle.toNat_succ_of_lt (UInt32.lt_iff_toNat_lt.mp hlt)
      have hin' : range.contains (last + 1) = true := by
        obtain ⟨hf, -⟩ := HandleRange.contains_iff.mp hin
        rw [HandleRange.contains_iff, UInt32.le_iff_toNat_le, UInt32.le_iff_toNat_le]
        rw [UInt32.le_iff_toNat_le] at hf
        rw [UInt32.lt_iff_toNat_lt] at hlt
        omega
      refine ⟨hin', ?_⟩
      cases hx : r.get? (last + 1) with
      | none => rfl
      | some x =>
        have := UInt32.le_iff_toNat_le.mp (hmax _ x hx hin')
        omega
    next =>
      obtain ⟨h₁, h₂, h₃⟩ := firstFree?_spec hr h
      exact ⟨HandleRange.contains_iff.mpr ⟨h₁, h₂⟩, h₃⟩

/-- The handle a record of an origin gets when its header carries the handle `own`. -/
def slot? (r : Repository) (origin : Origin) (own : RecordHandle) : Option RecordHandle :=
  if origin = .host ∧ (r.range origin).contains own ∧ own ∉ r.records then some own
  else r.nextFree? (r.range origin)

theorem slot?_spec (origin : Origin) {own k : RecordHandle}
    (hr : (r.range origin).first ≤ (r.range origin).last) (h : r.slot? origin own = some k) :
    (r.range origin).contains k = true ∧ r.get? k = none := by
  unfold slot? at h
  split at h
  next hkeep =>
    obtain rfl := Option.some.inj h
    exact ⟨hkeep.2.1, by simpa [mem_records] using hkeep.2.2⟩
  next => exact nextFree?_spec hr h

theorem insert_eq (r : Repository) (origin : Origin) (bytes : Bytes) :
    r.insert origin bytes = do
      let (header, _) ← (RecordHeader.split bytes).mapError .malformed
      match r.slot? origin header.handle with
      | none => .error (.noFreeHandle (r.range origin))
      | some k =>
        let stored ← (setRecordHandle k bytes).mapError .malformed
        return (r.put k ⟨header.type, origin, stored⟩, k) := by
  unfold insert
  cases RecordHeader.split bytes with
  | error e => rfl
  | ok split =>
    simp only [Except.mapError, bind, Except.bind, slot?]
    split_ifs
    · rfl
    · cases r.nextFree? (r.range origin) <;> rfl

/-- What storing a record comes to when it succeeds. -/
theorem insert_eq_ok {origin : Origin} {bytes : Bytes} {k : RecordHandle} :
    r.insert origin bytes = .ok (s, k) ↔ ∃ header body stored,
      RecordHeader.split bytes = .ok (header, body) ∧ r.slot? origin header.handle = some k ∧
      setRecordHandle k bytes = .ok stored ∧ s = r.put k ⟨header.type, origin, stored⟩ := by
  rw [insert_eq]
  cases RecordHeader.split bytes with
  | error e => simp [Except.mapError, bind, Except.bind]
  | ok split =>
    obtain ⟨header, body⟩ := split
    cases hslot : r.slot? origin header.handle with
    | none => simp [Except.mapError, bind, Except.bind, hslot]
    | some k' =>
      cases hset : setRecordHandle k' bytes with
      | error e =>
        simp only [Except.mapError, bind, Except.bind, hslot, hset]
        grind
      | ok stored =>
        simp only [Except.mapError, bind, Except.bind, hslot, hset, pure, Except.pure]
        grind

end Repository
end DescriptorExchange
