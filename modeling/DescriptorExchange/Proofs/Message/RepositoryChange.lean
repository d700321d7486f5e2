import DescriptorExchange.Message.RepositoryChange
import Mathlib.Algebra.BigOperators.Group.List.Basic
import Mathlib.Algebra.GroupWithZero.Nat

/-!
The data that announces a change, and its size. It can be written just if one byte can tell the
number of change records and the number of entries in each of them.
-/
namespace DescriptorExchange

theorem countByte_eq_ok {field : String} {count : Nat} {b : UInt8} :
    countByte field count = .ok b ↔ count ≤ 255 ∧ b = UInt8.ofNat count := by
  unfold countByte
  split_ifs with h <;> simp [h, eq_comm]

/-- The error that reports a list too long for its count. -/
def tooMany (field : String) (count : Nat) : WireError :=
  .invalidField field (UInt32.ofNat (min count 0xFFFFFFFF))

theorem countByte_of_many {field : String} {count : Nat} (h : 255 < count) :
    countByte field count = .error (tooMany field count) :=
  if_neg (Nat.not_le.mpr h)

namespace ChangeRecord

variable {r : ChangeRecord} {records : List ChangeRecord}

/-- A change record as it is written. -/
def bytes (r : ChangeRecord) : Bytes :=
  [r.operation.code, UInt8.ofNat r.entries.length] ++ r.entries.flatMap word32

theorem encode_eq (h : r.entries.length ≤ 255) : r.encode = .ok r.bytes := by
  unfold encode
  rw [countByte_eq_ok.mpr ⟨h, rfl⟩]
  rfl

theorem encode_of_many (h : 255 < r.entries.length) :
    r.encode = .error (tooMany "repo_change.num_entries" r.entries.length) := by
  unfold encode
  rw [countByte_of_many h]
  rfl

/-- The length of a change record. -/
def size (r : ChangeRecord) : Nat := 2 + 4 * r.entries.length

@[simp] theorem length_bytes (r : ChangeRecord) : r.bytes.length = r.size := by
  simp [bytes, size, List.length_flatMap]
  omega

theorem encodeAll_eq (h : ∀ r ∈ records, r.entries.length ≤ 255) :
    records.mapM encode = .ok (records.map bytes) := by
  induction records with
  | nil => rfl
  | cons r rest ih =>
    obtain ⟨hr, hrest⟩ := List.forall_mem_cons.mp h
    rw [List.mapM_cons, encode_eq hr, ih hrest]
    rfl

theorem encodeAll_of_many (h : ∃ r ∈ records, 255 < r.entries.length) :
    ∃ r ∈ records, 255 < r.entries.length ∧
      records.mapM encode = .error (tooMany "repo_change.num_entries" r.entries.length) := by
  induction records with
  | nil => simp at h
  | cons r rest ih =>
    by_cases hr : r.entries.length ≤ 255
    · have hrest : ∃ s ∈ rest, 255 < s.entries.length := by
        obtain ⟨s, hs, hmany⟩ := h
        refine ⟨s, (List.mem_cons.mp hs).resolve_left ?_, hmany⟩
        rintro rfl
        omega
      obtain ⟨s, hs, hmany, herror⟩ := ih hrest
      refine ⟨s, List.mem_cons_of_mem r hs, hmany, ?_⟩
      rw [List.mapM_cons, encode_eq hr, herror]
      rfl
    · refine ⟨r, List.mem_cons_self, Nat.not_le.mp hr, ?_⟩
      rw [List.mapM_cons, encode_of_many (Nat.not_le.mp hr)]
      rfl

end ChangeRecord

namespace RepositoryChange

variable {c : RepositoryChange}

theorem encode_eq (hentries : ∀ r ∈ c.records, r.entries.length ≤ 255)
    (hcount : c.records.length ≤ 255) : c.encode =
      .ok ([c.format.code, UInt8.ofNat c.records.length] ++ c.records.flatMap ChangeRecord.bytes) := by
  unfold encode
  rw [countByte_eq_ok.mpr ⟨hcount, rfl⟩, ChangeRecord.encodeAll_eq hentries, List.flatMap_def]
  rfl

theorem encode_size (hentries : ∀ r ∈ c.records, r.entries.length ≤ 255)
    (hcount : c.records.length ≤ 255) :
    ∃ data, c.encode = .ok data ∧ data.length = 2 + (c.records.map ChangeRecord.size).sum := by
  refine ⟨_, encode_eq hentries hcount, ?_⟩
  simp only [List.length_append, List.length_cons, List.length_nil, List.length_flatMap,
    ChangeRecord.length_bytes]

theorem encode_of_many (hcount : 255 < c.records.length) :
    c.encode = .error (tooMany "repo_change.num_change_records" c.records.length) := by
  unfold encode
  rw [countByte_of_many hcount]
  rfl

end RepositoryChange
end DescriptorExchange
