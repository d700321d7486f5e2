import DescriptorExchange.Proofs.Repository.Capacity
import DescriptorExchange.Proofs.Repository.Lengths

/-!
Records are filed under their own handles. Whatever is stored, rewritten or removed, with any bytes and
under any handles, each record is found under the handle in its header, with the type its header
gives, as long as its header says, and in the range of its origin. Storing takes a free handle and
fails only for want of one, and an operation that fails has not changed anything on its way.
-/
namespace DescriptorExchange

/-- A record as it is kept under a handle: its header gives the handle and the type, and the bytes the
header declares are there. -/
def Record.Filed (record : Record) (k : RecordHandle) : Prop :=
  ∃ header, RecordHeader.decode record.bytes = .ok header ∧ header.handle = k ∧
    header.type = record.type ∧
    header.dataLength.toNat + RecordHeader.length ≤ record.bytes.length

theorem Record.filed_of_split {record : Record} {k : RecordHandle} {header : RecordHeader}
    {body : Bytes} (hsplit : RecordHeader.split record.bytes = .ok (header, body))
    (hhandle : header.handle = k) (htype : header.type = record.type) : record.Filed k := by
  obtain ⟨hcode, tail, hbytes, hlen⟩ := RecordHeader.split_eq_ok.mp hsplit
  refine ⟨header, ?_, hhandle, htype, ?_⟩
  · rw [hbytes, List.append_assoc]
    exact RecordHeader.decode_append hcode _
  · rw [hbytes, List.length_append, List.length_append, RecordHeader.length_encode]
    omega

/-- A record read as a typed one has that type. -/
theorem Record.Filed.type_eq {α : Type} [RecordBody α] {record : Record} {k : RecordHandle}
    {header : RecordHeader} {value : α} (h : record.Filed k)
    (hdecode : decodeRecord α record.bytes = .ok (header, value)) :
    record.type = RecordBody.type α := by
  obtain ⟨found, hfound, -, htype, -⟩ := h
  obtain ⟨body, rest, hsplit, hbody, -⟩ := decodeRecord_eq_ok.mp hdecode
  obtain ⟨hcode, tail, hbytes, -⟩ := RecordHeader.split_eq_ok.mp hsplit
  rw [hbytes, List.append_assoc, RecordHeader.decode_append hcode] at hfound
  obtain rfl := Except.ok.inj hfound
  exact htype.symm.trans hbody

/-- Overwriting a field of the body leaves a record filed. -/
theorem Record.Filed.overwrite {record : Record} {k : RecordHandle} {field : String} {offset : Nat}
    {value bytes : Bytes} (h : record.Filed k) (hoffset : RecordHeader.length ≤ offset)
    (hset : overwrite field offset value record.bytes = .ok bytes) :
    Record.Filed { record with bytes } k := by
  obtain ⟨header, hdecode, hhandle, htype, hlen⟩ := h
  refine ⟨header, decode_overwrite hoffset hset hdecode, hhandle, htype, ?_⟩
  rw [length_overwrite hset]
  exact hlen

namespace Repository

variable {own host range : HandleRange} {r s : Repository} {k : RecordHandle} {record : Record}
  {origin : Origin} {e : Entity}

section edits

/-- What is done to a repository from outside, with any bytes and under any handles. -/
inductive Edit where
  | insert (origin : Origin) (bytes : Bytes)
  | removeAll (handles : List RecordHandle)
  | removeRange (range : HandleRange)
  | addChild (handle : RecordHandle) (child : Entity)
  | removeChild (handle : RecordHandle) (child : Entity)
  | strip (e : Entity) (range : HandleRange)
  | createAssociation (parent : Entity) (kind : UInt8) (child : Entity)
  | associate (parent : Entity) (kind : UInt8) (child : Entity)
  | setEffecterContainer (effecterId container : UInt16)
  | setLocatorValidity (terminusHandle : UInt16) (valid : Bool)

/-- The edits that go through the records they find and change them in place. -/
def Edit.InPlace : Edit → Prop
  | .strip .. => True
  | .setEffecterContainer .. => True
  | .setLocatorValidity .. => True
  | _ => False

/-- What an operation that works on one record leaves, and the error it reports. -/
def settle {α : Type} (r : Repository) :
    Except RepositoryError (Repository × α) → Repository × Option RepositoryError
  | .ok (s, _) => (s, none)
  | .error cause => (r, some cause)

/-- What an operation in place leaves, complete or not, and the error that stopped it. -/
def report {α : Type} : Repository × Except RepositoryError α → Repository × Option RepositoryError
  | (s, .ok _) => (s, none)
  | (s, .error cause) => (s, some cause)

/-- What an edit leaves, and the error it reports. -/
def attempt (r : Repository) : Edit → Repository × Option RepositoryError
  | .insert origin bytes => r.settle (r.insert origin bytes)
  | .removeAll handles => ((r.removeAll handles).1, none)
  | .removeRange range => ((r.removeRange range).1, none)
  | .addChild handle child => r.settle (r.addChild handle child)
  | .removeChild handle child => r.settle (r.removeChild handle child)
  | .strip e range => report (r.strip e range)
  | .createAssociation parent kind child => r.settle (r.createAssociation parent kind child)
  | .associate parent kind child => r.settle (r.associate parent kind child)
  | .setEffecterContainer effecterId container => report (r.setEffecterContainer effecterId container)
  | .setLocatorValidity terminusHandle valid => report (r.setLocatorValidity terminusHandle valid)

/-- The repository after an edit. -/
def after (r : Repository) (edit : Edit) : Repository := (r.attempt edit).1

def afterAll (r : Repository) (edits : List Edit) : Repository := edits.foldl after r

end edits

section filing

/-- Each record is filed under its handle, in the range of its origin. -/
structure Orderly (r : Repository) (own host : HandleRange) : Prop where
  ownRange : r.ownRange = own
  hostRange : r.hostRange = host
  filed : ∀ {k record}, r.get? k = some record → record.Filed k
  own : ∀ {k record}, r.get? k = some record → record.origin = .own → own.contains k = true
  host : ∀ {k record}, r.get? k = some record → record.origin = .host → host.contains k = true

namespace Orderly

theorem range_own (h : r.Orderly own host) : r.range .own = own := h.ownRange

theorem range_host (h : r.Orderly own host) : r.range .host = host := h.hostRange

theorem range_proper (hranges : own.Apart host) (h : r.Orderly own host) (origin : Origin) :
    (r.range origin).first ≤ (r.range origin).last := by
  cases origin with
  | own => exact h.range_own ▸ hranges.ownProper
  | host => exact h.range_host ▸ hranges.hostProper

theorem range_contains (h : r.Orderly own host) (hget : r.get? k = some record) :
    (r.range record.origin).contains k = true := by
  cases horigin : record.origin with
  | own => exact h.range_own ▸ h.own hget horigin
  | host => exact h.range_host ▸ h.host hget horigin

theorem put (h : r.Orderly own host) (hfiled : record.Filed k)
    (hin : (r.range record.origin).contains k = true) : (r.put k record).Orderly own host := by
  have hget {j : RecordHandle} {other : Record} (hj : (r.put k record).get? j = some other) :
      (j = k ∧ other = record) ∨ r.get? j = some other := by
    rw [get?_put] at hj
    split_ifs at hj with heq
    · exact .inl ⟨heq, (Option.some.inj hj).symm⟩
    · exact .inr hj
  refine ⟨h.ownRange, h.hostRange, fun hj => ?_, fun hj horigin => ?_, fun hj horigin => ?_⟩
  all_goals rcases hget hj with ⟨rfl, rfl⟩ | hold
  · exact hfiled
  · exact h.filed hold
  · rwa [horigin, h.range_own] at hin
  · exact h.own hold horigin
  · rwa [horigin, h.range_host] at hin
  · exact h.host hold horigin

/-- New bytes for a record that is there. -/
theorem rewrite {bytes : Bytes} (h : r.Orderly own host) (hget : r.get? k = some record)
    (hfiled : Record.Filed { record with bytes } k) :
    (r.put k { record with bytes }).Orderly own host := by
  have hin : (r.range record.origin).contains k = true := h.range_contains hget
  exact h.put hfiled hin

theorem of_less (h : r.Orderly own host) (hown : s.ownRange = r.ownRange)
    (hhost : s.hostRange = r.hostRange)
    (hless : ∀ {k record}, s.get? k = some record → r.get? k = some record) : s.Orderly own host where
  ownRange := hown.trans h.ownRange
  hostRange := hhost.trans h.hostRange
  filed hget := h.filed (hless hget)
  own hget := h.own (hless hget)
  host hget := h.host (hless hget)

theorem erase (h : r.Orderly own host) (k : RecordHandle) : (r.erase k).Orderly own host := by
  refine h.of_less rfl rfl fun {j other} hget => ?_
  rw [get?_erase] at hget
  split_ifs at hget
  exact hget

theorem removeAll (h : r.Orderly own host) (handles : List RecordHandle) :
    (r.removeAll handles).1.Orderly own host := by
  induction handles generalizing r with
  | nil => exact h
  | cons k handles ih => exact ih (h.erase k)

theorem insert (hranges : own.Apart host) (h : r.Orderly own host) {bytes : Bytes}
    (hinsert : r.insert origin bytes = .ok (s, k)) : s.Orderly own host := by
  obtain ⟨header, body, stored, hsplit, hslot, hset, rfl⟩ := insert_eq_ok.mp hinsert
  refine h.put ?_ (slot?_spec origin (h.range_proper hranges origin) hslot).1
  obtain ⟨patched, hpatched, hstored, -⟩ := setRecordHandle_of_split hsplit k
  obtain rfl := Except.ok.inj (hset.symm.trans hpatched)
  exact Record.filed_of_split hstored rfl rfl

/-- An association written in place of a record that held one. -/
theorem putAssociation (h : r.Orderly own host) {header : RecordHeader} {a b : Association}
    (ha : r.association k = .ok (header, a)) (hlen : b.children.length ≤ Association.maxChildren)
    (changeNumber : UInt16) : (r.putAssociation k changeNumber b).Orderly own host := by
  rw [putAssociation_eq]
  cases hget : r.get? k with
  | none => exact h
  | some record =>
    simp only [association, hget] at ha
    have hdecode : decodeRecord Association record.bytes = .ok (header, a) := by
      cases hread : decodeRecord Association record.bytes with
      | error cause => simp [hread, Except.mapError] at ha
      | ok found => simpa [hread, Except.mapError] using ha
    obtain ⟨body, rest, hsplit, htype, -⟩ :=
      decodeRecord_eq_ok.mp (Association.decodeRecord_encodeRecordAs hlen k changeNumber)
    have hold := (h.filed hget).type_eq hdecode
    exact h.rewrite hget (Record.filed_of_split hsplit rfl (htype.trans hold.symm))

theorem dropChild (h : r.Orderly own host) {header : RecordHeader} {a : Association}
    (ha : r.association k = .ok (header, a)) (child : Entity) :
    (r.dropChild k header a child).Orderly own host := by
  simp only [Repository.dropChild]
  split_ifs
  · exact h.erase k
  · refine h.putAssociation ha ?_ _
    exact (List.length_filter_le _ _).trans (length_children_of_association ha)

theorem addChild (h : r.Orderly own host) {child : Entity} {changed : Bool}
    (hadd : r.addChild k child = .ok (s, changed)) : s.Orderly own host := by
  obtain ⟨header, a, ha, ⟨-, rfl, -⟩ | ⟨-, hroom, -, rfl⟩⟩ := addChild_eq_ok hadd
  · exact h
  · have hlen := length_children_of_association ha
    refine h.putAssociation ha ?_ _
    rw [List.length_append, List.length_singleton]
    omega

theorem removeChild (h : r.Orderly own host) {child : Entity} {changed : Bool}
    (hremove : r.removeChild k child = .ok (s, changed)) : s.Orderly own host := by
  obtain ⟨header, a, ha, ⟨-, rfl, -⟩ | ⟨-, rfl, -⟩⟩ := removeChild_eq_ok.mp hremove
  · exact h.dropChild ha child
  · exact h

theorem associate (hranges : own.Apart host) (h : r.Orderly own host) {parent child : Entity}
    {kind : UInt8} {changed : Bool} (hassociate : r.associate parent kind child = .ok (s, k, changed)) :
    s.Orderly own host := by
  rcases associate_eq_ok hassociate with ⟨-, hadd⟩ | ⟨-, -, hcreate⟩
  · exact h.addChild hadd
  · exact h.insert hranges hcreate

theorem setEffecterContainer (h : r.Orderly own host) (effecterId container : UInt16) :
    (r.setEffecterContainer effecterId container).1.Orderly own host := by
  rcases r.setEffecterContainer_eq effecterId container with
    heq | ⟨k, record, bytes, hget, -, -, hset, heq⟩
  · rw [heq]
    exact h
  · rw [heq]
    have hoffset : RecordHeader.length ≤ StateEffecter.containerOffset := Nat.le_add_right _ 8
    exact h.rewrite hget ((h.filed hget).overwrite hoffset hset)

end Orderly

end filing

section attempts

theorem report_fst {α : Type} (outcome : Repository × Except RepositoryError α) :
    (report outcome).1 = outcome.1 := by
  obtain ⟨s, _ | _⟩ := outcome <;> rfl

theorem report_of_ok {α : Type} {outcome : Repository × Except RepositoryError α} {a : α}
    (h : outcome.2 = .ok a) : (report outcome).2 = none := by
  obtain ⟨s, _⟩ := outcome
  obtain rfl : _ = Except.ok a := h
  rfl

/-- The records an edit in place finds can be read, and have the bytes it changes. -/
theorem attempt_inPlace (r : Repository) {edit : Edit} (hedit : edit.InPlace) :
    (r.attempt edit).2 = none := by
  cases edit with
  | strip e range => rw [attempt, strip_eq, report]
  | setEffecterContainer effecterId container =>
    obtain ⟨changed, hchanged⟩ := r.setEffecterContainer_ok effecterId container
    exact report_of_ok hchanged
  | setLocatorValidity terminusHandle valid =>
    obtain ⟨changed, hchanged⟩ := r.setLocatorValidity_ok terminusHandle valid
    exact report_of_ok hchanged
  | _ => exact hedit.elim

/-- Nothing has changed when an edit fails. -/
theorem after_of_failure (r : Repository) {edit : Edit} (hfails : (r.attempt edit).2.isSome) :
    r.after edit = r := by
  have hsettle {α : Type} {outcome : Except RepositoryError (Repository × α)}
      (h : (r.settle outcome).2.isSome) : (r.settle outcome).1 = r := by
    cases outcome with
    | error cause => rfl
    | ok done => simp [settle] at h
  have hinPlace (h : edit.InPlace) : r.after edit = r := by simp [r.attempt_inPlace h] at hfails
  cases edit with
  | insert origin bytes => exact hsettle hfails
  | addChild handle child => exact hsettle hfails
  | removeChild handle child => exact hsettle hfails
  | createAssociation parent kind child => exact hsettle hfails
  | associate parent kind child => exact hsettle hfails
  | removeAll handles => simp [attempt] at hfails
  | removeRange range => simp [attempt] at hfails
  | _ => exact hinPlace trivial

end attempts

section orderly

variable {bytes body : Bytes} {header : RecordHeader} {cause : RepositoryError}

theorem Orderly.stripEach (hits : List (RecordHandle × Bool)) (h : r.Orderly own host) :
    (stripEach e hits r).1.Orderly own host := by
  induction hits generalizing r with
  | nil => exact h
  | cons hit rest ih =>
    simp only [Repository.stripEach]
    split_ifs
    · exact ih (h.erase hit.1)
    · split
      next => exact h
      next s _ hremove => exact ih (h.removeChild hremove)

theorem Orderly.setLocatorValidity (h : r.Orderly own host) (terminusHandle : UInt16) (valid : Bool) :
    (r.setLocatorValidity terminusHandle valid).1.Orderly own host := by
  refine ⟨(setLocatorValidity_ownRange ..).trans h.ownRange,
    (setLocatorValidity_hostRange ..).trans h.hostRange, fun hget => ?_, fun hget horigin => ?_,
    fun hget horigin => ?_⟩
  all_goals
    rw [get?_setLocatorValidity] at hget
    obtain ⟨old, hold, rfl⟩ := Option.map_eq_some_iff.mp hget
  · rcases revalidated_cases terminusHandle valid old with heq | ⟨bytes, -, hset, heq⟩
    · rw [heq]
      exact h.filed hold
    · have hoffset : RecordHeader.length ≤ TerminusLocator.validityOffset := Nat.le_add_right _ 2
      rw [heq]
      exact (h.filed hold).overwrite hoffset hset
  · exact h.own hold horigin
  · exact h.host hold horigin

theorem Orderly.after (hranges : own.Apart host) (h : r.Orderly own host) (edit : Edit) :
    (r.after edit).Orderly own host := by
  have hsettle {α : Type} {outcome : Except RepositoryError (Repository × α)}
      (hok : ∀ s a, outcome = .ok (s, a) → s.Orderly own host) :
      (r.settle outcome).1.Orderly own host := by
    cases outcome with
    | error cause => exact h
    | ok done => exact hok done.1 done.2 rfl
  cases edit with
  | insert origin bytes => exact hsettle fun s k hok => h.insert hranges hok
  | removeAll handles => exact h.removeAll handles
  | removeRange range => exact h.removeAll _
  | addChild handle child => exact hsettle fun s changed hok => h.addChild hok
  | removeChild handle child => exact hsettle fun s changed hok => h.removeChild hok
  | strip e range =>
    rw [Repository.after, attempt, report_fst]
    exact h.stripEach _
  | createAssociation parent kind child => exact hsettle fun s k hok => h.insert hranges hok
  | associate parent kind child => exact hsettle fun s done hok => h.associate hranges hok
  | setEffecterContainer effecterId container =>
    rw [Repository.after, attempt, report_fst]
    exact h.setEffecterContainer effecterId container
  | setLocatorValidity terminusHandle valid =>
    rw [Repository.after, attempt, report_fst]
    exact h.setLocatorValidity terminusHandle valid

theorem orderly_empty (own host : HandleRange) : (empty own host).Orderly own host := by
  have hnone (k : RecordHandle) : (empty own host).get? k = none := by simp [get?, empty]
  exact ⟨rfl, rfl, fun h => by simp [hnone] at h, fun h => by simp [hnone] at h,
    fun h => by simp [hnone] at h⟩

theorem Orderly.afterAll (hranges : own.Apart host) (edits : List Edit) (h : r.Orderly own host) :
    (r.afterAll edits).Orderly own host := by
  induction edits generalizing r with
  | nil => exact h
  | cons edit rest ih => exact ih (h.after hranges edit)

end orderly

/-- Repositories that begin empty, with ranges apart, and are edited in any way. Each record is filed
under its handle. Storing a record takes a handle that was free and fails, if the record can be read,
just when there is none. No edit that fails has changed anything, and the edits that go through several
records never fail. -/
theorem edits_keep_filing (hranges : own.Apart host) (edits : List Edit) :
    let r := (empty own host).afterAll edits
    r.Orderly own host ∧
    (∀ origin bytes s k, r.insert origin bytes = .ok (s, k) →
      r.get? k = none ∧ ∀ j, j ≠ k → s.get? j = r.get? j) ∧
    (∀ origin bytes header body cause, RecordHeader.split bytes = .ok (header, body) →
      (r.insert origin bytes = .error cause ↔
        r.Full (r.range origin) ∧ cause = .noFreeHandle (r.range origin))) ∧
    ∀ edit, ((r.attempt edit).2.isSome → r.after edit = r) ∧
      (edit.InPlace → (r.attempt edit).2 = none) := by
  intro r
  have hr : r.Orderly own host := (orderly_empty own host).afterAll hranges edits
  refine ⟨hr, fun origin bytes s k hinsert => ?_, fun origin bytes header body cause hsplit => ?_,
    fun edit => ⟨r.after_of_failure, r.attempt_inPlace⟩⟩
  · obtain ⟨header, body, stored, -, hslot, -, rfl⟩ := insert_eq_ok.mp hinsert
    have hfree := (slot?_spec origin (hr.range_proper hranges origin) hslot).2
    exact ⟨hfree, fun j hj => r.get?_put_ne _ hj⟩
  · exact insert_eq_error_iff (hr.range_proper hranges origin) hsplit

/-- One record fills a range of one handle, and is not replaced by the next one. -/
theorem edits_keep_filing_full :
    let own : HandleRange := ⟨1, 4⟩
    let host : HandleRange := ⟨5, 5⟩
    let sensor : Bytes := [9, 0, 0, 0, 1, 2, 0, 0, 0, 0]
    let r := (empty own host).afterAll [.insert .host sensor,
      .associate ⟨45, 1, 1⟩ Association.physical ⟨68, 1, 1⟩,
      .associate ⟨45, 1, 1⟩ Association.physical ⟨68, 2, 1⟩, .strip ⟨68, 1, 1⟩ own,
      .insert .host sensor]
    own.Apart host ∧ r.Orderly own host ∧ (r.get? 1).isSome ∧ r.Full host ∧
      r.insert .host sensor = .error (.noFreeHandle host) := by
  intro own host sensor r
  have hranges : own.Apart host := ⟨by decide, by decide, by decide⟩
  have hsplit : RecordHeader.split sensor = .ok (⟨9, 1, .numericSensor, 0, 0⟩, []) := rfl
  obtain ⟨horderly, -, hfails, -⟩ := edits_keep_filing hranges [.insert .host sensor,
    .associate ⟨45, 1, 1⟩ Association.physical ⟨68, 1, 1⟩,
    .associate ⟨45, 1, 1⟩ Association.physical ⟨68, 2, 1⟩, .strip ⟨68, 1, 1⟩ own,
    .insert .host sensor]
  have hfull : r.Full host := by
    intro k hk
    obtain ⟨hfirst, hlast⟩ := HandleRange.contains_iff.mp hk
    obtain rfl : k = 5 := UInt32.le_antisymm hlast hfirst
    decide +kernel
  have hrange : r.range .host = host := horderly.range_host
  refine ⟨hranges, horderly, by decide +kernel, hfull, ?_⟩
  exact (hfails .host sensor _ _ _ hsplit).mpr (hrange.symm ▸ ⟨hfull, rfl⟩)

end Repository
end DescriptorExchange
