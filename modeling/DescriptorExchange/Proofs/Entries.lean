import Mathlib.Logic.Basic
import Std.Data.ExtTreeMap

/-! Entries of a map whose order tells different keys apart. -/
namespace DescriptorExchange.Entries

variable {α β : Type} {cmp : α → α → Ordering} [Std.TransCmp cmp] [Std.LawfulEqCmp cmp]
  [DecidableEq α]

theorem getElem?_insert (m : Std.ExtTreeMap α β cmp) (k a : α) (v : β) :
    (m.insert k v)[a]? = if a = k then some v else m[a]? := by
  rw [Std.ExtTreeMap.getElem?_insert]
  simp only [Std.LawfulEqCmp.compare_eq_iff_eq, eq_comm (a := k)]

theorem getElem?_insert_of_ne {m : Std.ExtTreeMap α β cmp} {k a : α} {v : β} (h : a ≠ k) :
    (m.insert k v)[a]? = m[a]? :=
  (getElem?_insert m k a v).trans (if_neg h)

theorem getElem?_erase (m : Std.ExtTreeMap α β cmp) (k a : α) :
    (m.erase k)[a]? = if a = k then none else m[a]? := by
  rw [Std.ExtTreeMap.getElem?_erase]
  simp only [Std.LawfulEqCmp.compare_eq_iff_eq, eq_comm (a := k)]

theorem getElem?_erase_of_ne {m : Std.ExtTreeMap α β cmp} {k a : α} (h : a ≠ k) :
    (m.erase k)[a]? = m[a]? :=
  (getElem?_erase m k a).trans (if_neg h)

end DescriptorExchange.Entries
