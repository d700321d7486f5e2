import DescriptorExchange.Proofs.Repository.Copies

/-!
Terminus locators in the repository. Marking the locators of some termini as out of reach changes the
records of their valid locators and no others, whatever range they are in.
-/
namespace DescriptorExchange

section reading

variable {record stored : Bytes} {t : TerminusLocator}

/-- The locator that a record says, if it can be read as one. -/
def locatorIn? (record : Bytes) : Option TerminusLocator :=
  (decodeRecord TerminusLocator record).toOption.map Prod.snd

theorem locatorIn?_eq_some :
    locatorIn? record = some t ↔ ∃ header, decodeRecord TerminusLocator record = .ok (header, t) := by
  simp [locatorIn?, toOption_eq_some]

/-- The handle of a record does not matter. -/
theorem locatorIn?_setRecordHandle {k : RecordHandle} {header : RecordHeader} {body : Bytes}
    (hsplit : RecordHeader.split record = .ok (header, body))
    (hset : setRecordHandle k record = .ok stored) : locatorIn? stored = locatorIn? record := by
  obtain ⟨patched, hpatched, -, hback⟩ := setRecordHandle_of_split hsplit k
  obtain rfl := Except.ok.inj (hset.symm.trans hpatched)
  ext t
  rw [locatorIn?_eq_some, locatorIn?_eq_some]
  exact ⟨fun ⟨_, hread⟩ => ⟨_, decodeRecord_setRecordHandle hback hread⟩,
    fun ⟨_, hread⟩ => ⟨_, decodeRecord_setRecordHandle hset hread⟩⟩

theorem locatorIn?_of_type {header : RecordHeader} {body : Bytes}
    (hsplit : RecordHeader.split record = .ok (header, body)) (htype : header.type ≠ .terminusLocator) :
    locatorIn? record = none := by
  refine Option.eq_none_iff_forall_ne_some.mpr fun t ht => htype ?_
  obtain ⟨found, hread⟩ := locatorIn?_eq_some.mp ht
  obtain ⟨body', rest, hsplit', hlocator, -⟩ := decodeRecord_eq_ok.mp hread
  rw [hsplit, Except.ok.injEq, Prod.mk.injEq] at hsplit'
  exact hsplit'.1 ▸ hlocator

end reading

namespace Record

variable {x : Record} {t : TerminusLocator} {known more : UInt16 → Bool}

/-- The locator that a record is, if it can be read. -/
def locator? (x : Record) : Option TerminusLocator :=
  if x.type = .terminusLocator then locatorIn? x.bytes else none

theorem locator?_eq_some : x.locator? = some t ↔ x.type = .terminusLocator ∧
    ∃ header, decodeRecord TerminusLocator x.bytes = .ok (header, t) := by
  rw [← locatorIn?_eq_some, locator?]
  split_ifs with htype <;> simp [htype]

/-- The record with its validity taken away. -/
def invalidated (x : Record) : Record :=
  { x with bytes := (TerminusLocator.setValidity false x.bytes).toOption.getD x.bytes }

theorem invalidated_of_set {bytes : Bytes} (h : TerminusLocator.setValidity false x.bytes = .ok bytes) :
    x.invalidated = { x with bytes } := by
  rw [invalidated, h]
  rfl

/-- Only the validity is another one. -/
theorem locator?_invalidated (h : x.locator? = some t) :
    x.invalidated.locator? = some { t with valid := false } := by
  obtain ⟨htype, header, hread⟩ := locator?_eq_some.mp h
  obtain ⟨patched, hset, hpatched⟩ := TerminusLocator.setValidity_spec hread false
  rw [invalidated_of_set hset]
  exact locator?_eq_some.mpr ⟨htype, header, hpatched⟩

theorem marked_invalidated (x : Record) (htype : x.type = .terminusLocator) :
    x.Marked x.invalidated := by
  cases hset : TerminusLocator.setValidity false x.bytes with
  | error e =>
    have hsame : x.invalidated = x := by
      rw [invalidated, hset]
      rfl
    rw [hsame]
    exact .refl x
  | ok bytes =>
    rw [invalidated_of_set hset]
    exact Repository.marked_of_set htype hset

/-- What becomes of a record when the termini go out of reach. -/
def unreached (known : UInt16 → Bool) (x : Record) : Record :=
  match x.locator? with
  | some t => if known t.terminusHandle && t.valid then x.invalidated else x
  | none => x

theorem unreached_of_none (h : x.locator? = none) : x.unreached known = x := by
  simp only [unreached, h]

theorem unreached_of_some (h : x.locator? = some t) : x.unreached known =
    if known t.terminusHandle && t.valid then x.invalidated else x := by
  simp only [unreached, h]

theorem unreached_of_valid (h : x.locator? = some t) (hvalid : t.valid = true)
    (hknown : known t.terminusHandle = true) : x.unreached known = x.invalidated := by
  rw [unreached_of_some h, hvalid, hknown, Bool.and_self, if_pos rfl]

theorem unreached_eq_self (h : ∀ t, x.locator? = some t → t.valid = true →
    known t.terminusHandle = false) : x.unreached known = x := by
  cases ht : x.locator? with
  | none => exact unreached_of_none ht
  | some t =>
    rw [unreached_of_some ht, if_neg]
    intro hboth
    obtain ⟨hknown, hvalid⟩ := Bool.and_eq_true_iff.mp hboth
    exact Bool.false_ne_true ((h t ht hvalid).symm.trans hknown)

theorem unreached_invalidated (h : x.locator? = some t) :
    x.invalidated.unreached known = x.invalidated := by
  rw [unreached_of_some (locator?_invalidated h), if_neg (by simp)]

theorem locator?_unreached (h : x.locator? = some t) : (x.unreached known).locator? =
    some { t with valid := t.valid && !known t.terminusHandle } := by
  rw [unreached_of_some h]
  by_cases hstruck : (known t.terminusHandle && t.valid) = true
  · obtain ⟨hknown, hvalid⟩ : known t.terminusHandle = true ∧ t.valid = true := by
      simpa using hstruck
    rw [if_pos hstruck, locator?_invalidated h, hknown, Bool.not_true, Bool.and_false]
  · have hsame : (t.valid && !known t.terminusHandle) = t.valid := by
      cases hvalid : t.valid <;> simp_all
    rw [if_neg hstruck, h, hsame]

theorem terminus_unreached : (x.unreached known).locator?.map TerminusLocator.terminusHandle =
    x.locator?.map TerminusLocator.terminusHandle := by
  cases h : x.locator? with
  | none => rw [unreached_of_none h, h]
  | some t =>
    rw [locator?_unreached h]
    rfl

theorem type_unreached : (x.unreached known).type = x.type := by
  cases h : x.locator? with
  | none => rw [unreached_of_none h]
  | some t =>
    rw [unreached_of_some h]
    split_ifs <;> rfl

theorem unreached_or : (x.unreached known).unreached more = x.unreached fun i => known i || more i := by
  cases h : x.locator? with
  | none => rw [unreached_of_none h, unreached_of_none h, unreached_of_none h]
  | some t =>
    rw [unreached_of_some (locator?_unreached h), unreached_of_some h, unreached_of_some h]
    cases known t.terminusHandle <;> cases t.valid <;> cases more t.terminusHandle <;> simp

end Record

namespace Repository

variable {r : Repository} {k : RecordHandle}

/-- A stored record is the locator that the host has sent. -/
theorem locator?_of_insert {s : Repository} {record : Bytes} {x : Record}
    (h : r.insert .host record = .ok (s, k)) (hget : s.get? k = some x) :
    x.locator? = locatorIn? record := by
  obtain ⟨header, body, stored, hsplit, -, hset, rfl⟩ := insert_eq_ok.mp h
  rw [get?_put_self] at hget
  obtain rfl := Option.some.inj hget
  rw [Record.locator?]
  split_ifs with htype
  · exact locatorIn?_setRecordHandle hsplit hset
  · exact (locatorIn?_of_type hsplit htype).symm

/-- Taking the validity away from the locators of a terminus that goes out of reach. -/
theorem revalidated_false (i : UInt16) (x : Record) : revalidated i false x = x.unreached (· = i) := by
  cases hbytes : revalidated? i false x with
  | none =>
    rw [revalidated_of_none hbytes, Record.unreached_eq_self]
    refine fun t ht hvalid => decide_eq_false fun hi => ?_
    obtain ⟨htype, header, hread⟩ := Record.locator?_eq_some.mp ht
    obtain ⟨bytes, hset, -⟩ := TerminusLocator.setValidity_spec hread false
    have hsome := revalidated?_eq_some.mpr ⟨htype, ⟨header, t, hread, hi, by simp [hvalid]⟩, hset⟩
    simp [hbytes] at hsome
  | some bytes =>
    obtain ⟨htype, ⟨header, t, hread, hi, hvalid⟩, hset⟩ := revalidated?_eq_some.mp hbytes
    rw [revalidated_of_some hbytes, Record.unreached_of_valid
      (Record.locator?_eq_some.mpr ⟨htype, header, hread⟩) (by simpa using hvalid)
      (decide_eq_true hi), Record.invalidated_of_set hset]

/-- The locators of a terminus are marked, and nothing else changes. -/
theorem get?_setLocatorValidity_false (r : Repository) (i : UInt16) (k : RecordHandle) :
    (r.setLocatorValidity i false).1.get? k = (r.get? k).map (Record.unreached (· = i)) := by
  rw [get?_setLocatorValidity, funext (revalidated_false i)]

end Repository
end DescriptorExchange
