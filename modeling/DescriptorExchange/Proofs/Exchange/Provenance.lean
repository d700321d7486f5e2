import DescriptorExchange.Proofs.Exchange.Holdings
import Mathlib.Data.List.Induction

/-!
Where the records in the range of the host come from. From a resync on there is one stored import for
each of them, and it is a copy of the last record with the handle of the import that an answer has
brought. An import and its record go together: when the record is fetched again, when it is withdrawn
and when the next resync begins.
-/
namespace DescriptorExchange.Exchange

variable {x y : Exchange} {h k : RecordHandle} {gone : List RecordHandle} {record : Bytes}
  {taken : Option Bytes}

section stock

/-- The stored imports name the records in the range of the host one to one, and these are of its
origin. -/
structure Stocked (x : Exchange) : Prop where
  parted : x.Parted
  held : ∀ {h k}, x.stored? h = some k → x.settings.hostRange.contains k = true ∧
    ∃ held, x.repository.get? k = some held ∧ held.origin = .host
  alone : ∀ {h j k}, x.stored? h = some k → x.stored? j = some k → h = j
  named : ∀ {k held}, x.settings.hostRange.contains k = true → x.repository.get? k = some held →
    ∃ h, x.stored? h = some k

/-- The record of an import that was not undone is still the same. -/
theorem Sheds.remains (hx : x.Stocked) (hxy : Sheds x y gone) (hk : y.stored? h = some k) :
    x.stored? h = some k ∧ y.repository.get? k = x.repository.get? k := by
  obtain ⟨hstored, hnot⟩ := (hxy.stored h k).mp hk
  refine ⟨hstored, hxy.kept k (hx.held hstored).1 fun j hj hjk => hnot ?_⟩
  rwa [hx.alone hstored hjk]

theorem Sheds.stocked (hx : x.Stocked) (hxy : Sheds x y gone) : y.Stocked where
  parted := hxy.parted
  held hk := by
    obtain ⟨hstored, hget⟩ := hxy.remains hx hk
    rw [hxy.settings, hget]
    exact hx.held hstored
  alone hk hj := hx.alone (hxy.remains hx hk).1 (hxy.remains hx hj).1
  named {k held} hin hget := by
    rw [hxy.settings] at hin
    obtain ⟨hbefore, hstill⟩ := hxy.of_present hin hget
    obtain ⟨h, hk⟩ := hx.named hin hbefore
    exact ⟨h, hstill h hk⟩

/-- A stored record takes a free handle in the range of the host, and the import names it. -/
theorem Stores.spec (hx : x.Parted) (hxy : Stores x y h record) : ∃ k new,
    x.settings.hostRange.contains k = true ∧ x.repository.get? k = none ∧ new.origin = .host ∧
      new.CopyOf record ∧
      (∀ j, y.repository.get? j = if j = k then some new else x.repository.get? j) ∧
      ∀ j, y.stored? j = if j = h then some k else x.stored? j := by
  obtain ⟨k, hinsert, himports⟩ := hxy.made
  obtain ⟨new, hput, horigin, hcopy⟩ := Repository.copyOf_of_insert hinsert
  obtain ⟨header, body, stored, -, hslot, -, -⟩ := Repository.insert_eq_ok.mp hinsert
  obtain ⟨hin, hfree⟩ := Repository.slot?_spec .host hx.ranges.hostProper hslot
  refine ⟨k, new, hx.host ▸ hin, hfree, horigin, hcopy, fun j => ?_, fun j => ?_⟩
  · rw [hput]
    exact Repository.get?_put _ _ _ _
  · simp only [stored?, himports, imports_insert]
    split_ifs <;> rfl

theorem Stores.stocked (hx : x.Stocked) (hnone : x.stored? h = none) (hxy : Stores x y h record) :
    y.Stocked := by
  obtain ⟨k, new, hin, hfree, horigin, -, hget, hstored⟩ := hxy.spec hx.parted
  -- The handle is free, so no import names it yet.
  have hother {i j : RecordHandle} (hi : x.stored? i = some j) : i ≠ h ∧ j ≠ k := by
    obtain ⟨-, held, hheld, -⟩ := hx.held hi
    constructor
    · rintro rfl
      simp [hnone] at hi
    · rintro rfl
      simp [hfree] at hheld
  refine ⟨hxy.parted hx.parted, fun {i j} hi => ?_, fun {i j l} hi hj => ?_,
    fun {j held} hj hheld => ?_⟩
  · rw [hxy.settings, hget]
    rw [hstored] at hi
    split_ifs at hi with heq
    · obtain rfl := Option.some.inj hi
      exact ⟨hin, new, if_pos rfl, horigin⟩
    · rw [if_neg (hother hi).2]
      exact hx.held hi
  · rw [hstored] at hi hj
    split_ifs at hi hj with heq heq'
    · exact heq.trans heq'.symm
    · exact absurd (Option.some.inj hi).symm (hother hj).2
    · exact absurd (Option.some.inj hj).symm (hother hi).2
    · exact hx.alone hi hj
  · rw [hxy.settings] at hj
    rw [hget] at hheld
    split_ifs at hheld with heq
    · exact ⟨h, by rw [hstored, if_pos rfl, heq]⟩
    · obtain ⟨i, hi⟩ := hx.named hj hheld
      exact ⟨i, by rw [hstored, if_neg (hother hi).1, hi]⟩

theorem Files.stocked (hx : x.Stocked) (hxy : Files x record y) : y.Stocked := by
  obtain ⟨gone, bare, filed, hbare, hnone, rfl | ⟨h, hown, hfiled⟩, hy⟩ := hxy
  · exact hy.stocked (hbare.stocked hx)
  · exact hy.stocked (hfiled.stocked (hbare.stocked hx) (hnone h hown))

theorem Empties.stocked (hxy : Empties x y) : y.Stocked where
  parted := hxy.parted
  held {h k} hk := by simp [hxy.stored h] at hk
  alone {h j k} hk := by simp [hxy.stored h] at hk
  named {k held} hin hget := by simp [hxy.cleared k (hxy.settings ▸ hin)] at hget

theorem Turnover.stocked (hx : x.Stocked) (hxy : Turnover x taken y) : y.Stocked := by
  have hy := hxy.parted hx.parted
  cases hxy with
  | drops hxy => exact hxy.stocked hx
  | files hxy => exact hxy.stocked hx
  | marks hsettings himports hmarks =>
    have hstored (h : RecordHandle) : y.stored? h = x.stored? h := by rw [stored?, stored?, himports]
    refine ⟨hy, fun {h k} hk => ?_, fun {h j k} hk hj => ?_, fun {k held} hin hget => ?_⟩
    · rw [hstored] at hk
      obtain ⟨hin, held, hget, horigin⟩ := hx.held hk
      obtain ⟨marked, hmarked, hrecord⟩ := hmarks.get?_eq_some hget
      exact ⟨hsettings ▸ hin, marked, hmarked, hrecord.origin.trans horigin⟩
    · rw [hstored] at hk hj
      exact hx.alone hk hj
    · have hsome := hmarks.isSome_get? k
      rw [hget] at hsome
      obtain ⟨old, hold⟩ := Option.isSome_iff_exists.mp hsome.symm
      obtain ⟨h, hk⟩ := hx.named (hsettings ▸ hin) hold
      exact ⟨h, (hstored h).trans hk⟩
  | clears hxy => exact hxy.stocked

end stock

section source

/-- What an import has stored is a copy of the record that was filed, if that record has the handle of
the import, and else it is what it was. -/
theorem Files.source (hx : x.Stocked) (hxy : Files x record y) (hk : y.stored? h = some k) :
    ∃ new, y.repository.get? k = some new ∧
      if ownHandle? record = some h then new.CopyOf record
      else x.stored? h = some k ∧ x.repository.get? k = some new := by
  obtain ⟨gone, bare, filed, hbare, hnone, hfiled, hy⟩ := hxy
  have hstock := hbare.stocked hx
  -- What the import had stored before is gone if the record has its handle.
  have hold (hk : bare.stored? h = some k) : ∃ new, bare.repository.get? k = some new ∧
      ownHandle? record ≠ some h ∧ x.stored? h = some k ∧ x.repository.get? k = some new := by
    obtain ⟨hbefore, hsame⟩ := hbare.remains hx hk
    obtain ⟨-, new, hget, -⟩ := hstock.held hk
    refine ⟨new, hget, fun hown => ?_, hbefore, hsame ▸ hget⟩
    simp [hnone h hown] at hk
  rcases hfiled with rfl | ⟨j, hown, hstores⟩
  · obtain ⟨hlast, hget⟩ := hy.remains hstock hk
    obtain ⟨new, hnew, hne, hbefore⟩ := hold hlast
    exact ⟨new, hget.trans hnew, by rwa [if_neg hne]⟩
  · obtain ⟨hlast, hget⟩ := hy.remains (hstores.stocked hstock (hnone j hown)) hk
    obtain ⟨i, new, -, hfree, -, hcopy, hput, hstored⟩ := hstores.spec hstock.parted
    rw [hput] at hget
    rw [hstored] at hlast
    split_ifs at hlast with heq
    · obtain rfl := Option.some.inj hlast
      refine ⟨new, by rw [hget, if_pos rfl], ?_⟩
      rwa [if_pos (heq ▸ hown)]
    · obtain ⟨old, hold, hne, hbefore⟩ := hold hlast
      have hki : k ≠ i := by
        rintro rfl
        simp [hfree] at hold
      refine ⟨old, by rw [hget, if_neg hki, hold], ?_⟩
      rwa [if_neg hne]

/-- What an import has stored after a call is a copy of the record that the call has brought, or it was
stored before and no more than marked by the call. -/
theorem Turnover.source (hx : x.Stocked) (hxy : Turnover x taken y) (hk : y.stored? h = some k) :
    ∃ new, y.repository.get? k = some new ∧
      ((∃ record, taken = some record ∧ ownHandle? record = some h ∧ new.CopyOf record) ∨
        taken.bind ownHandle? ≠ some h ∧ x.stored? h = some k ∧
          ∃ old, x.repository.get? k = some old ∧ old.Marked new) := by
  cases hxy with
  | drops hxy =>
    obtain ⟨hstored, hget⟩ := hxy.remains hx hk
    obtain ⟨-, old, hold, -⟩ := hx.held hstored
    exact ⟨old, hget.trans hold, .inr ⟨by simp, hstored, old, hold, .refl old⟩⟩
  | @files _ record hxy =>
    obtain ⟨new, hnew, hsource⟩ := hxy.source hx hk
    split_ifs at hsource with hown
    · exact ⟨new, hnew, .inl ⟨record, rfl, hown, hsource⟩⟩
    · exact ⟨new, hnew, .inr ⟨by simpa using hown, hsource.1, new, hsource.2, .refl new⟩⟩
  | marks hsettings himports hmarks =>
    have hstored : x.stored? h = some k := by rwa [stored?, himports] at hk
    obtain ⟨-, old, hold, -⟩ := hx.held hstored
    obtain ⟨new, hnew, hmarked⟩ := hmarks.get?_eq_some hold
    exact ⟨new, hnew, .inr ⟨by simp, hstored, old, hold, hmarked⟩⟩
  | clears hxy => simp [hxy.stored h] at hk

end source

section runs

/-- Some of the calls brings a record with the handle. -/
def Brings (x : Exchange) (h : RecordHandle) : List Call → Prop
  | [] => False
  | call :: rest => (x.taken? call).bind ownHandle? = some h ∨ (x.after call).Brings h rest

theorem brings_append {calls later : List Call} :
    x.Brings h (calls ++ later) ↔ x.Brings h calls ∨ (x.afterAll calls).Brings h later := by
  induction calls generalizing x with
  | nil => simp [Brings, afterAll]
  | cons call rest ih =>
    rw [List.cons_append, Brings, Brings, ih, or_assoc]
    rfl

/-- The import has stored its record when the call brought it, and no call after it brings another with
the handle of the import. -/
def StoredFrom (x : Exchange) (calls : List Call) (h k : RecordHandle) (record : Bytes) : Prop :=
  ∃ done call later, calls = done ++ call :: later ∧ (x.afterAll done).taken? call = some record ∧
    ownHandle? record = some h ∧ ((x.afterAll done).after call).imports[h]? = some (.stored k) ∧
    ¬ ((x.afterAll done).after call).Brings h later

theorem StoredFrom.concat {calls : List Call} {call : Call} (hfrom : x.StoredFrom calls h k record)
    (hother : ((x.afterAll calls).taken? call).bind ownHandle? ≠ some h) :
    x.StoredFrom (calls ++ [call]) h k record := by
  obtain ⟨done, first, later, rfl, htaken, hown, hstored, hnot⟩ := hfrom
  refine ⟨done, first, later ++ [call], by simp, htaken, hown, hstored, ?_⟩
  rw [brings_append, not_or]
  refine ⟨hnot, ?_⟩
  rw [afterAll, List.foldl_append] at hother
  simpa [Brings, afterAll] using hother

/-- From a state with no stored imports on, each stored import holds a copy of the record it was stored
from. -/
theorem afterAll_stocked (hx : x.Stocked) (hnone : ∀ h, x.stored? h = none) (calls : List Call) :
    (x.afterAll calls).Stocked ∧ ∀ h k, (x.afterAll calls).stored? h = some k →
      ∃ record new, x.StoredFrom calls h k record ∧
        (x.afterAll calls).repository.get? k = some new ∧ new.CopyOf record := by
  induction calls using List.reverseRecOn with
  | nil => exact ⟨hx, fun h k hk => by simp [afterAll, hnone h] at hk⟩
  | append_singleton calls call ih =>
    obtain ⟨hstock, hsources⟩ := ih
    have hturn := after_turnover hstock.parted call
    rw [show x.afterAll (calls ++ [call]) = (x.afterAll calls).after call from List.foldl_append]
    refine ⟨hturn.stocked hstock, fun h k hk => ?_⟩
    obtain ⟨new, hnew, ⟨record, htaken, hown, hcopy⟩ | ⟨hother, hstored, old, hold, hmarked⟩⟩ :=
      hturn.source hstock hk
    · exact ⟨record, new, ⟨calls, call, [], rfl, htaken, hown, stored?_eq_some.mp hk, not_false⟩,
        hnew, hcopy⟩
    · obtain ⟨record, old', hfrom, hold', hcopy⟩ := hsources h k hstored
      obtain rfl := Option.some.inj (hold.symm.trans hold')
      exact ⟨record, new, hfrom.concat hother, hnew, hcopy.marked hmarked⟩

/-- From the first resync on the stored imports and the records in the range of the host correspond one
to one. Each of the records is of the origin of the host, and a copy of the record that was brought
when the import stored it. -/
theorem stored_imports_match_records (settings : ExchangeSettings) (names : EntityNames)
    (r : Repository) (t : Containment) (hsettings : settings.ownRange.Apart settings.hostRange)
    (hranges : r.ownRange.Apart r.hostRange) (hhost : r.hostRange = settings.hostRange)
    (before calls : List Call) :
    let x := ((start settings names r t).afterAll before).beginResync.1
    let y := x.afterAll calls
    (∀ h k, y.imports[h]? = some (.stored k) → y.repository.hostRange.contains k = true ∧
      ∃ held record, y.repository.get? k = some held ∧ held.origin = .host ∧
        x.StoredFrom calls h k record ∧ held.CopyOf record) ∧
    ∀ k held, y.repository.hostRange.contains k = true → y.repository.get? k = some held →
      ∃! h : RecordHandle, y.imports[h]? = some (.stored k) := by
  intro x y
  have hstart : (start settings names r t).Parted :=
    ⟨hhost, hranges, hsettings, fun hj => by simp [start] at hj⟩
  have hbefore : ((start settings names r t).afterAll before).Parted :=
    afterAll_induction (fun u call (hu : u.Parted) (_ : True) => (after_turnover hu call).parted hu)
      (fun _ _ => trivial) hstart
  have hempties : Empties _ x := beginResync_empties hbefore
  obtain ⟨hstock, hsources⟩ := afterAll_stocked hempties.stocked hempties.stored calls
  rw [show y.repository.hostRange = y.settings.hostRange from hstock.parted.host]
  refine ⟨fun h k hk => ?_, fun k held hin hget => ?_⟩
  · rw [← stored?_eq_some] at hk
    obtain ⟨hin, held, hget, horigin⟩ := hstock.held hk
    obtain ⟨record, held', hfrom, hget', hcopy⟩ := hsources h k hk
    obtain rfl := Option.some.inj (hget.symm.trans hget')
    exact ⟨hin, held, record, hget, horigin, hfrom, hcopy⟩
  · obtain ⟨h, hk⟩ := hstock.named hin hget
    refine ⟨h, stored?_eq_some.mp hk, fun j hj => ?_⟩
    exact hstock.alone (stored?_eq_some.mpr hj) hk

/-- An answer with the locator of a terminus of the host. -/
def locatorAnswer (h next : RecordHandle) : Bytes :=
  let locator : TerminusLocator := ⟨7, true, ⟨1⟩, 0, .endpoint ⟨9⟩⟩
  (RecordResponse.single next (encodeRecord h locator)).encode

/-- The locator is still a copy of what the host has sent when the host goes down. -/
theorem stored_imports_match_records_locator :
    let r : Repository := .empty .localDefault .hostDefault
    let x := ((start .standard ⟨[]⟩ r .empty).afterAll []).beginResync.1
    let calls : List Call :=
      [.request, .receive 0 (.ok (locatorAnswer 1 RecordHandle.terminator)), .hostDown]
    let y := x.afterAll calls
    r.ownRange.Apart r.hostRange ∧ ∃ k held record, y.imports[(1 : RecordHandle)]? = some (.stored k) ∧
      y.repository.get? k = some held ∧ held.type = .terminusLocator ∧
      x.StoredFrom calls 1 k record ∧ held.CopyOf record ∧
      ∃! h : RecordHandle, y.imports[h]? = some (.stored k) := by
  intro r x calls y
  have hranges : r.ownRange.Apart r.hostRange := ⟨by decide, by decide, by decide⟩
  obtain ⟨hstored, hnamed⟩ :=
    stored_imports_match_records .standard ⟨[]⟩ r .empty hranges hranges rfl [] calls
  have hlocator : (y.stored? 1).any fun k =>
      (y.repository.get? k).any (·.type = .terminusLocator) := by
    decide +kernel
  obtain ⟨k, hk, hheld⟩ := (Option.any_eq_true _ _).mp hlocator
  obtain ⟨held, hget, htype⟩ := (Option.any_eq_true _ _).mp hheld
  rw [stored?_eq_some] at hk
  obtain ⟨hin, held', record, hget', -, hfrom, hcopy⟩ := hstored 1 k hk
  obtain rfl := Option.some.inj (hget.symm.trans hget')
  exact ⟨hranges, k, held, record, hk, hget, of_decide_eq_true htype, hfrom, hcopy,
    hnamed k held hin hget⟩

end runs

end DescriptorExchange.Exchange
