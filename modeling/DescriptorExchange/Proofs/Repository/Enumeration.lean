import DescriptorExchange.Proofs.Repository.Lookup

/-!
Going through a repository one record at a time. A record is found with the handle of the one behind
it in the order of the handles, and the terminator stands for the first record when it is asked for,
and for the end when it comes next. A record with the handle of the terminator is the first one, so
it is not mistaken for the end.
-/
namespace DescriptorExchange.Repository

variable {r : Repository} {k : RecordHandle} {record : Record}
  {before after : List (RecordHandle × Record)}

/-- The handle that is said to come next when these records are left. -/
def upcoming (after : List (RecordHandle × Record)) : RecordHandle :=
  (after.head?.map Prod.fst).getD RecordHandle.terminator

theorem find?_after (h : r.toList = before ++ (k, record) :: after) :
    r.toList.find? (fun entry => k < entry.1) = after.head? := by
  have hsorted := r.toList_pairwise
  rw [h, List.pairwise_append, List.pairwise_cons] at hsorted
  obtain ⟨-, ⟨hafter, -⟩, hbefore⟩ := hsorted
  rw [h, List.find?_append, List.find?_eq_none.mpr, Option.none_or,
    List.find?_cons_of_neg (by simp)]
  · cases after with
    | nil => rfl
    | cons entry rest => exact List.find?_cons_of_pos (by simpa using hafter entry (by simp))
  · intro entry hentry
    have hlt := hbefore entry hentry (k, record) (by simp)
    simpa using UInt32.le_of_lt hlt

theorem getWithNext?_first (h : r.toList = (k, record) :: after) :
    r.getWithNext? RecordHandle.terminator = some (k, record, upcoming after) := by
  have hlist : r.toList = [] ++ (k, record) :: after := h
  have hfind := find?_after hlist
  simp only [getWithNext?, if_true, h, List.head?_cons] at hfind ⊢
  simp [hfind, upcoming]

theorem getWithNext?_at (h : r.toList = before ++ (k, record) :: after)
    (hk : k ≠ RecordHandle.terminator) :
    r.getWithNext? k = some (k, record, upcoming after) := by
  have hget : r.get? k = some record := mem_toList.mp (h ▸ by simp)
  have hfind := find?_after h
  simp only [getWithNext?, if_neg hk, hget]
  simp [hfind, upcoming]

/-- What comes next is never the terminator while there are records left. -/
theorem upcoming_ne (h : r.toList = before ++ (k, record) :: after) (hafter : after ≠ []) :
    upcoming after ≠ RecordHandle.terminator := by
  obtain ⟨entry, rest, rfl⟩ := List.exists_cons_of_ne_nil hafter
  have hsorted := r.toList_pairwise
  rw [h, List.pairwise_append, List.pairwise_cons] at hsorted
  have hlt : k < entry.1 := hsorted.2.1.1 entry (by simp)
  intro hzero
  rw [show entry.1 = 0 from hzero, UInt32.lt_iff_toNat_lt] at hlt
  exact Nat.not_lt_zero _ hlt

theorem getWithNext?_eq_some {handle next : RecordHandle}
    (h : r.getWithNext? handle = some (k, record, next)) :
    ∃ before after, r.toList = before ++ (k, record) :: after ∧ next = upcoming after := by
  by_cases hhandle : handle = RecordHandle.terminator
  · subst hhandle
    cases hlist : r.toList with
    | nil => simp [getWithNext?, hlist] at h
    | cons entry after =>
      obtain ⟨rfl, rfl, rfl⟩ : entry.1 = k ∧ entry.2 = record ∧ upcoming after = next := by
        simpa using (getWithNext?_first hlist).symm.trans h
      exact ⟨[], after, rfl, rfl⟩
  · cases hget : r.get? handle with
    | none => simp [getWithNext?, hhandle, hget] at h
    | some found =>
      obtain ⟨before, after, hlist⟩ := List.append_of_mem (mem_toList.mpr hget)
      obtain ⟨rfl, rfl, rfl⟩ : handle = k ∧ found = record ∧ upcoming after = next := by
        simpa using (getWithNext?_at hlist hhandle).symm.trans h
      exact ⟨before, after, hlist, rfl⟩

theorem getWithNext?_eq_none : r.getWithNext? k = none ↔
    (k ≠ RecordHandle.terminator ∧ r.get? k = none) ∨
      (k = RecordHandle.terminator ∧ r.toList = []) := by
  unfold getWithNext?
  by_cases hk : k = RecordHandle.terminator
  · cases hlist : r.toList <;> simp [hk]
  · cases hget : r.get? k <;> simp [hk]

end DescriptorExchange.Repository
