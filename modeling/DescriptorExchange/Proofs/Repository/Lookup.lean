import DescriptorExchange.Repository
import Mathlib.Data.List.Sort

/-!
What each operation of the repository does to the record under a handle. Every operation changes
the records under the handles it reports and no others, so a repository can be compared with an
earlier one by looking at the reported handles alone.
-/
namespace DescriptorExchange.Repository

@[ext]
theorem ext_get? {r s : Repository} (own : r.ownRange = s.ownRange)
    (host : r.hostRange = s.hostRange)
    (get : ∀ h, r.get? h = s.get? h) : r = s := by
  obtain ⟨_, _, records⟩ := r
  obtain ⟨_, _, others⟩ := s
  obtain rfl : _ = _ := own
  obtain rfl : _ = _ := host
  have hr : records = others := Std.ExtTreeMap.ext_getElem? fun {h} => get h
  rw [hr]

/-- Puts a record under a handle. -/
def put (r : Repository) (handle : RecordHandle) (record : Record) : Repository :=
  { r with records := r.records.insert handle record }

@[simp] theorem put_ownRange (r : Repository) (h : RecordHandle) (x : Record) :
    (r.put h x).ownRange = r.ownRange := rfl

@[simp] theorem put_hostRange (r : Repository) (h : RecordHandle) (x : Record) :
    (r.put h x).hostRange = r.hostRange := rfl

theorem get?_put (r : Repository) (h : RecordHandle) (x : Record) (k : RecordHandle) :
    (r.put h x).get? k = if k = h then some x else r.get? k := by
  simp only [put, get?, Std.ExtTreeMap.getElem?_insert, Std.LawfulEqCmp.compare_eq_iff_eq]
  grind

@[simp] theorem get?_put_self (r : Repository) (h : RecordHandle) (x : Record) :
    (r.put h x).get? h = some x := by simp [get?_put]

theorem get?_put_ne (r : Repository) {h k : RecordHandle} (x : Record) (hk : k ≠ h) :
    (r.put h x).get? k = r.get? k := by simp [get?_put, hk]

@[simp] theorem erase_ownRange (r : Repository) (h : RecordHandle) :
    (r.erase h).ownRange = r.ownRange := rfl

@[simp] theorem erase_hostRange (r : Repository) (h : RecordHandle) :
    (r.erase h).hostRange = r.hostRange := rfl

theorem get?_erase (r : Repository) (h k : RecordHandle) :
    (r.erase h).get? k = if k = h then none else r.get? k := by
  simp only [erase, get?, Std.ExtTreeMap.getElem?_erase, Std.LawfulEqCmp.compare_eq_iff_eq]
  grind

theorem mem_records {r : Repository} {h : RecordHandle} : h ∈ r.records ↔ (r.get? h).isSome :=
  Std.ExtTreeMap.mem_iff_isSome_getElem?

theorem mem_toList {r : Repository} {h : RecordHandle} {x : Record} :
    (h, x) ∈ r.toList ↔ r.get? h = some x :=
  Std.ExtTreeMap.mem_toList_iff_getElem?_eq_some

theorem toList_pairwise (r : Repository) : r.toList.Pairwise fun a b => a.1 < b.1 := by
  have h := Std.ExtTreeMap.ordered_keys_toList (t := r.records)
  exact h.imp fun hab => by simpa [Std.compare_eq_lt] using hab

theorem mem_inRange {r : Repository} {range : HandleRange} {h : RecordHandle} {x : Record} :
    (h, x) ∈ r.inRange range ↔ r.get? h = some x ∧ range.contains h := by
  simp [inRange, mem_toList]

/-- What no edit changes is the same after any number of them. -/
theorem foldl_same {α β : Type} {edit : Repository → α → Repository} (view : Repository → β)
    (hedit : ∀ s a, view (edit s a) = view s) (edits : List α) (r : Repository) :
    view (edits.foldl edit r) = view r := by
  induction edits generalizing r with
  | nil => rfl
  | cons a rest ih => rw [List.foldl_cons, ih, hedit]

@[simp] theorem foldl_erase_ownRange (r : Repository) (hs : List RecordHandle) :
    (hs.foldl erase r).ownRange = r.ownRange := foldl_same ownRange erase_ownRange hs r

@[simp] theorem foldl_erase_hostRange (r : Repository) (hs : List RecordHandle) :
    (hs.foldl erase r).hostRange = r.hostRange := foldl_same hostRange erase_hostRange hs r

theorem get?_foldl_erase (r : Repository) (hs : List RecordHandle) (k : RecordHandle) :
    (hs.foldl erase r).get? k = if k ∈ hs then none else r.get? k := by
  induction hs generalizing r with
  | nil => simp
  | cons h hs ih =>
    simp only [List.foldl_cons, ih, get?_erase, List.mem_cons]
    grind

@[simp] theorem removeRange_ownRange (r : Repository) (range : HandleRange) :
    (r.removeRange range).1.ownRange = r.ownRange := foldl_erase_ownRange r _

@[simp] theorem removeRange_hostRange (r : Repository) (range : HandleRange) :
    (r.removeRange range).1.hostRange = r.hostRange := foldl_erase_hostRange r _

/-- Removing a range takes away the records in it and nothing else. -/
theorem get?_removeRange (r : Repository) (range : HandleRange) (k : RecordHandle) :
    (r.removeRange range).1.get? k = if range.contains k then none else r.get? k := by
  have hmem : k ∈ (r.inRange range).map Prod.fst ↔ (r.get? k).isSome ∧ range.contains k := by
    simp only [List.mem_map, Prod.exists, exists_and_right, exists_eq_right, mem_inRange,
      Option.isSome_iff_exists]
  simp only [removeRange, removeAll, get?_foldl_erase, hmem]
  cases hk : r.get? k <;> simp

theorem mem_removeRange {r : Repository} {range : HandleRange} {k : RecordHandle} :
    k ∈ (r.removeRange range).2.map Prod.fst ↔ (r.get? k).isSome ∧ range.contains k := by
  simp only [removeRange, removeAll, List.mem_map, List.mem_filter, mem_toList, Prod.exists,
    exists_and_right, exists_eq_right, mem_inRange, decide_eq_true_eq, Option.isSome_iff_exists]
  grind

end DescriptorExchange.Repository
