import DescriptorExchange.Proofs.Exchange.Publishing
import DescriptorExchange.Proofs.Exchange.Withdrawals

/-!
The sensor index between cycles. It is built from the sensor records of the host and from the termini,
and withdrawals change both. Where a sensor record goes the index is built anew, and where only a
terminus goes it stays: the sensors of that terminus are still in it under the id they had.
-/
namespace DescriptorExchange

/-- From one map to the other termini may go, and those that stay keep their ids. -/
def Termini.Shrinks (before after : Termini) : Prop :=
  ∀ i : UInt16, after[i]? = none ∨ after[i]?.map Terminus.tid = before[i]?.map Terminus.tid

namespace Termini.Shrinks

variable {before mid after : Termini}

theorem refl (before : Termini) : before.Shrinks before := fun _ => .inr rfl

theorem trans (hbefore : before.Shrinks mid) (hafter : mid.Shrinks after) :
    before.Shrinks after := fun i => by
  rcases hafter i with hnone | hsame
  · exact .inl hnone
  · rcases hbefore i with hnone | hsame'
    · rw [hnone] at hsame
      exact .inl (Option.map_eq_none_iff.mp hsame)
    · exact .inr (hsame.trans hsame')

theorem erase (before : Termini) (h : UInt16) : before.Shrinks (before.erase h) := fun i => by
  rw [Std.ExtTreeMap.getElem?_erase]
  split_ifs
  · exact .inl rfl
  · exact .inr rfl

end Termini.Shrinks

/-- The index depends on the termini only in what the records of sensors are filed under. -/
theorem SensorIndex.build_congr {records : List Bytes} {termini termini' : Termini} {fallback : TerminusId}
    (hsame : ∀ bytes ∈ records, ∀ header s, decodeRecord StateSensor bytes = .ok (header, s) →
      entryOf termini' fallback s = entryOf termini fallback s) :
    build records termini' fallback = build records termini fallback := by
  refine List.foldl_ext _ _ _ fun index bytes hbytes => ?_
  cases hdecode : decodeRecord StateSensor bytes with
  | error e => rfl
  | ok found => simp only [hsame bytes hbytes found.1 found.2 hdecode]

namespace Exchange

variable {x y z : Exchange} {h k : RecordHandle} {call : Call} {calls : List Call}

/-- The sensor records of the host, in the order of their handles. -/
def sensorRecords (x : Exchange) : List Bytes :=
  ((x.repository.ofType .stateSensor).filter fun entry => x.settings.hostRange.contains entry.1).map
    fun entry => entry.2.bytes

/-- The published index is the one that would be built now. -/
def Coherent (x : Exchange) : Prop :=
  x.sensors = SensorIndex.build x.sensorRecords x.termini x.settings.hostTid

theorem publishSensors_coherent (x : Exchange) : x.publishSensors.Coherent := rfl

/-- A sensor record of the host. -/
def SensorAt (x : Exchange) (k : RecordHandle) (record : Record) : Prop :=
  x.settings.hostRange.contains k = true ∧ x.repository.get? k = some record ∧
    record.type = .stateSensor

/-- The call removes a sensor record of the host. -/
def TakesSensor (x : Exchange) (call : Call) : Prop :=
  ∃ k record, x.SensorAt k record ∧ (x.after call).repository.get? k = none

/-- The call removes a terminus that a remaining sensor record of the host refers to, and whose id is
not the one that sensors without a terminus are filed under. -/
def Orphans (x : Exchange) (call : Call) : Prop :=
  ∃ bytes ∈ (x.after call).sensorRecords, ∃ header s terminus,
    decodeRecord StateSensor bytes = .ok (header, s) ∧
    x.termini[s.terminusHandle]? = some terminus ∧ terminus.tid ≠ x.settings.hostTid ∧
    (x.after call).termini[s.terminusHandle]? = none

theorem sensorRecords_congr (hsame : ∀ k record, y.SensorAt k record ↔ x.SensorAt k record) :
    y.sensorRecords = x.sensorRecords := by
  have hsorted (x : Exchange) : ((x.repository.ofType .stateSensor).filter fun entry =>
      x.settings.hostRange.contains entry.1).Pairwise fun a b => a.1 < b.1 :=
    (x.repository.toList_pairwise.filter _).filter _
  have hmem (x : Exchange) (entry : RecordHandle × Record) :
      entry ∈ (x.repository.ofType .stateSensor).filter (fun entry =>
        x.settings.hostRange.contains entry.1) ↔ x.SensorAt entry.1 entry.2 := by
    obtain ⟨k, record⟩ := entry
    simp only [List.mem_filter, Repository.ofType, Repository.mem_toList, decide_eq_true_eq]
    exact and_comm
  refine congrArg (List.map _) (Sorted.eq_of_mem_iff
    (fun a b (hab : a.1 < b.1) => UInt32.lt_asymm hab) (hsorted y) (hsorted x) fun entry => ?_)
  rw [hmem, hmem, hsame]

/-- The sensors of the host and what they are filed under, but for termini that have gone. -/
structure Leaves (x y : Exchange) : Prop where
  settings : y.settings = x.settings
  sensors : y.sensors = x.sensors
  records : y.sensorRecords = x.sensorRecords
  termini : x.termini.Shrinks y.termini

theorem Leaves.trans (hxy : x.Leaves y) (hyz : y.Leaves z) : x.Leaves z :=
  ⟨hyz.settings.trans hxy.settings, hyz.sensors.trans hxy.sensors, hyz.records.trans hxy.records,
    hxy.termini.trans hyz.termini⟩

section withdrawing

theorem unmerge_termini (x : Exchange) (k : RecordHandle) (child : Entity) :
    (x.unmerge k child).1.termini = x.termini := by
  obtain ⟨tree, repository, notices, h⟩ := x.unmerge_eq k child
  rw [h]

theorem unmergeAll_termini (k : RecordHandle) (children : List Entity) (x : Exchange) :
    (unmergeAll k children x).1.termini = x.termini :=
  unmergeAll_induction (p := fun y => y.termini = x.termini)
    (fun y child hy => (unmerge_termini y k child).trans hy) children rfl

theorem dropStored_termini (x : Exchange) (k : RecordHandle) :
    x.termini.Shrinks (x.dropStored k).1.termini := by
  unfold dropStored
  split
  next => exact .refl _
  next record _ =>
    dsimp only
    split_ifs
    · exact .refl _
    · split
      next => exact .erase _ _
      next => exact .refl _
    · exact .refl _

/-- From `x` to `y` imports were undone, and it was noted whether a sensor record of the host was among
them. -/
structure Undoes (x y : Exchange) (sensor : Bool) : Prop where
  sheds : ∃ gone, Sheds x y gone
  sensors : y.sensors = x.sensors
  termini : x.termini.Shrinks y.termini
  noted : sensor = true ↔ ∃ k record, x.SensorAt k record ∧ y.repository.get? k = none

namespace Undoes

variable {sensor sensors : Bool}

theorem refl (hx : x.Parted) : Undoes x x false where
  sheds := ⟨[], .refl hx⟩
  sensors := rfl
  termini := .refl _
  noted := by
    simp only [Bool.false_eq_true, false_iff]
    rintro ⟨k, record, ⟨-, hget, -⟩, hnone⟩
    simp [hget] at hnone

theorem settings (hxy : Undoes x y sensor) : y.settings = x.settings :=
  let ⟨_, hsheds⟩ := hxy.sheds
  hsheds.settings

theorem trans (hxy : Undoes x y sensor) (hyz : Undoes y z sensors) :
    Undoes x z (sensor || sensors) where
  sheds :=
    let ⟨_, hfirst⟩ := hxy.sheds
    let ⟨_, hrest⟩ := hyz.sheds
    ⟨_, hfirst.trans hrest⟩
  sensors := hyz.sensors.trans hxy.sensors
  termini := hxy.termini.trans hyz.termini
  noted := by
    -- nothing comes into the range of the host, so what has gone by `y` has gone by `z`
    obtain ⟨_, hfirst⟩ := hxy.sheds
    obtain ⟨_, hrest⟩ := hyz.sheds
    rw [Bool.or_eq_true, hxy.noted, hyz.noted]
    constructor
    · rintro (⟨k, record, hk, hnone⟩ | ⟨k, record, ⟨hhost, hget, htype⟩, hnone⟩)
      · refine ⟨k, record, hk, ?_⟩
        exact (hrest.get?_host (hxy.settings ▸ hk.1)).elim id fun hsame => hsame.trans hnone
      · rw [hxy.settings] at hhost
        rcases hfirst.get?_host hhost with hgone | hsame
        · simp [hget] at hgone
        · exact ⟨k, record, ⟨hhost, hsame.symm.trans hget, htype⟩, hnone⟩
    · rintro ⟨k, record, ⟨hhost, hget, htype⟩, hnone⟩
      rcases hfirst.get?_host hhost with hgone | hsame
      · exact .inl ⟨k, record, ⟨hhost, hget, htype⟩, hgone⟩
      · exact .inr ⟨k, record, ⟨hxy.settings ▸ hhost, hsame.trans hget, htype⟩, hnone⟩

/-- Where no sensor record went, the sensor records are the same. -/
theorem leaves (hxy : Undoes x y false) : x.Leaves y := by
  obtain ⟨_, hsheds⟩ := hxy.sheds
  refine ⟨hxy.settings, hxy.sensors, ?_, hxy.termini⟩
  refine sensorRecords_congr fun k record => ⟨?_, ?_⟩
  · rintro ⟨hhost, hget, htype⟩
    rw [hxy.settings] at hhost
    rcases hsheds.get?_host hhost with hgone | hsame
    · simp [hget] at hgone
    · exact ⟨hhost, hsame.symm.trans hget, htype⟩
  · rintro ⟨hhost, hget, htype⟩
    rcases hsheds.get?_host hhost with hgone | hsame
    · exact absurd (hxy.noted.mpr ⟨k, record, ⟨hhost, hget, htype⟩, hgone⟩) (by simp)
    · exact ⟨hxy.settings ▸ hhost, hsame.trans hget, htype⟩

end Undoes

/-- A stored record is dropped, and the flag tells whether it was that of a sensor. -/
theorem dropStored_noted (hk : x.settings.hostRange.contains k = true) :
    (x.dropStored k).1.sensors = x.sensors ∧
      ((x.dropStored k).2.2 = true ↔ ∃ j record, x.SensorAt j record ∧
        (x.dropStored k).1.repository.get? j = none) := by
  by_cases hsensor : ∃ old, x.repository.get? k = some old ∧ old.type = .stateSensor
  · obtain ⟨old, hget, htype⟩ := hsensor
    rw [dropStored_of_sensor hget htype]
    refine ⟨rfl, iff_of_true rfl ⟨k, old, ⟨hk, hget, htype⟩, ?_⟩⟩
    exact (Repository.get?_erase x.repository k k).trans (if_pos rfl)
  · simp only [not_exists, not_and] at hsensor
    obtain ⟨hsensors, hflag⟩ := dropStored_of_other hsensor
    refine ⟨hsensors, iff_of_false (by simp [hflag]) ?_⟩
    rintro ⟨j, record, ⟨-, hget, htype⟩, hnone⟩
    have hne : j ≠ k := by
      rintro rfl
      exact hsensor record hget htype
    rcases x.dropStored_cases k with ⟨-, heq⟩ | ⟨termini, sensor, heq⟩
    · simp [heq, hget] at hnone
    · simp [heq, Repository.get?_erase, hne, hget] at hnone

theorem dropImport_undoes {touched : List RecordHandle} {sensor : Bool} (hx : x.Undoable)
    (h : RecordHandle) (hdrop : x.dropImport h = (y, .ok (touched, sensor))) : Undoes x y sensor := by
  have hsheds := dropImport_sheds hx.parted h
  let rest : Exchange := { x with imports := x.imports.erase h }
  simp only [dropImport] at hsheds hdrop
  cases hi : x.imports[h]? with
  | none =>
    simp only [hi, Prod.mk.injEq, Except.ok.injEq] at hdrop
    obtain ⟨rfl, -, rfl⟩ := hdrop
    exact .refl hx.parted
  | some i =>
    simp only [hi] at hsheds hdrop
    cases i with
    | stored k =>
      obtain ⟨hsensors, hnoted⟩ := dropStored_noted (x := rest) (hx.stored hi)
      have htermini := dropStored_termini rest k
      simp only [Prod.mk.injEq, Except.ok.injEq] at hdrop
      obtain ⟨rfl, -, rfl⟩ := hdrop
      exact ⟨⟨_, hsheds⟩, hsensors, htermini, hnoted⟩
    | merged parent children k =>
      obtain ⟨bare, touched', hall, -⟩ := unmergeAll_tends children rest (hx.merged hi)
      have hsensors := unmergeAll_sensors k children rest
      have htermini := unmergeAll_termini k children rest
      have hkept := unmergeAll_sheds children (hx.erase h).parted (hx.parted.merged hi)
      simp only [rest] at hall hsensors htermini
      simp only [hall, Prod.mk.injEq, Except.ok.injEq] at hsheds hdrop hsensors htermini hkept
      obtain ⟨rfl, -, rfl⟩ := hdrop
      refine ⟨⟨_, hsheds⟩, hsensors, htermini ▸ .refl _, iff_of_false (by simp) ?_⟩
      rintro ⟨j, record, ⟨hhost, hget, -⟩, hnone⟩
      have hsame := hkept.kept j hhost fun i hi => by simp at hi
      simp [hsame.symm.trans hnone] at hget

/-- What a withdrawal removes, and whether it publishes the index. -/
theorem dropImports_undoes {touched : List RecordHandle} {sensor : Bool} (hx : x.Undoable)
    (handles : List RecordHandle) (hdrop : dropImports handles x = (y, .ok (touched, sensor))) :
    Undoes x y sensor := by
  induction handles generalizing x touched sensor with
  | nil =>
    simp only [dropImports, Prod.mk.injEq, Except.ok.injEq] at hdrop
    obtain ⟨rfl, -, rfl⟩ := hdrop
    exact .refl hx.parted
  | cons h handles ih =>
    obtain ⟨mid, ⟨first, flag⟩, heq, hmid, -⟩ := hx.dropImport h
    obtain ⟨last, ⟨more, flags⟩, heq', -⟩ := hmid.dropImports handles
    simp only [dropImports, heq, heq', Prod.mk.injEq, Except.ok.injEq] at hdrop
    obtain ⟨rfl, -, rfl⟩ := hdrop
    exact (dropImport_undoes hx h heq).trans (ih hmid heq')

/-- Marking the termini of the host changes no sensor record and no id. -/
theorem invalidateTermini_leaves (x : Exchange) : x.Leaves x.invalidateTermini.1 := by
  refine ⟨x.invalidateTermini_settings, x.invalidateTermini_sensors,
    sensorRecords_congr fun k record => ?_, fun i => .inr ?_⟩
  · rw [SensorAt, SensorAt, invalidateTermini_settings]
    refine and_congr_right fun _ => and_congr_left fun htype => ?_
    have hother : record.type ≠ .terminusLocator := by
      rw [htype]
      decide
    exact invalidateTermini_induction
      (p := fun s => s.get? k = some record ↔ x.repository.get? k = some record)
      (fun s i hs => (s.get?_setLocatorValidity_of_type i false hother).trans hs) Iff.rfl
  · rw [getElem?_invalidateTermini, Option.map_map]
    rfl

end withdrawing

section publishing

/-- A withdrawal that removes a sensor record publishes the index, and any other one leaves it. -/
theorem withdrawal_cases (hx : x.Undoable) (hcall : x.call? call = some y)
    (hkind : call.runsCycles = false) :
    (x.TakesSensor call ∧ y.Coherent) ∨ (¬ x.TakesSensor call ∧ x.Leaves y) := by
  unfold TakesSensor
  rw [after_of_call? hcall]
  cases call with
  | forget handles =>
    obtain ⟨bare, ⟨touched, sensor⟩, hdrop, -⟩ := hx.dropImports handles
    have hundoes := dropImports_undoes hx handles hdrop
    simp only [call?, forget, hdrop, Option.some.injEq] at hcall
    cases sensor with
    | true =>
      obtain rfl : bare.publishSensors = y := hcall
      exact .inl ⟨hundoes.noted.mp rfl, bare.publishSensors_coherent⟩
    | false =>
      obtain rfl : bare = y := hcall
      exact .inr ⟨fun htaken => by simpa using hundoes.noted.mpr htaken, hundoes.leaves⟩
  | hostDown =>
    obtain rfl := Option.some.inj hcall
    refine .inr ⟨?_, x.invalidateTermini_leaves⟩
    rintro ⟨k, record, ⟨-, hget, -⟩, hnone⟩
    have hsome := x.invalidateTermini_rewritten.isSome_get? k
    simp [hget, hnone] at hsome
  | _ => simp [Call.runsCycles] at hkind

/-- Unless a call removes a terminus from under a sensor, the index that would be built is the same. -/
theorem Leaves.build_eq (hxy : x.Leaves y) (hcall : x.call? call = some y) (hnone : ¬ x.Orphans call) :
    SensorIndex.build y.sensorRecords y.termini y.settings.hostTid =
      SensorIndex.build x.sensorRecords x.termini x.settings.hostTid := by
  rw [hxy.settings, ← hxy.records]
  refine SensorIndex.build_congr fun bytes hbytes header s hdecode => ?_
  have htid : ((y.termini[s.terminusHandle]?).map Terminus.tid).getD x.settings.hostTid =
      ((x.termini[s.terminusHandle]?).map Terminus.tid).getD x.settings.hostTid := by
    rcases hxy.termini s.terminusHandle with hgone | hsame
    · rw [hgone]
      cases hterminus : x.termini[s.terminusHandle]? with
      | none => rfl
      | some terminus =>
        by_contra hne
        refine hnone ⟨bytes, ?_, header, s, terminus, hdecode, hterminus, fun heq => hne heq.symm, ?_⟩
        · rwa [after_of_call? hcall]
        · rwa [after_of_call? hcall]
    · rw [hsame]
  have hentry (x' : Exchange) : SensorIndex.entryOf x'.termini x.settings.hostTid s =
      (⟨((x'.termini[s.terminusHandle]?).map Terminus.tid).getD x.settings.hostTid, s.sensorId⟩,
        ⟨s.entity, s.possibleStates⟩) := by
    unfold SensorIndex.entryOf
    cases x'.termini[s.terminusHandle]? <;> rfl
  rw [hentry, hentry, htid]

/-- Withdrawals none of which removes a sensor record leave the index. -/
theorem run?_leaves (hx : x.Undoable) (hkinds : ∀ call ∈ calls, call.runsCycles = false)
    (hrun : x.run? calls = some z)
    (hkept : ∀ u call left, x.ComesTo calls u (call :: left) → ¬ u.TakesSensor call) :
    x.Leaves z ∧
      (SensorIndex.build z.sensorRecords z.termini z.settings.hostTid =
          SensorIndex.build x.sensorRecords x.termini x.settings.hostTid ∨
        ∃ u call left, x.ComesTo calls u (call :: left) ∧ u.Orphans call) := by
  induction calls generalizing x with
  | nil =>
    obtain rfl := Option.some.inj hrun
    exact ⟨⟨rfl, rfl, rfl, .refl _⟩, .inl rfl⟩
  | cons call rest ih =>
    obtain ⟨mid, hcall, hrest⟩ := Option.bind_eq_some_iff.mp hrun
    have hfirst : x.Leaves mid :=
      ((withdrawal_cases hx hcall (hkinds call (by simp))).resolve_left fun htaken =>
        hkept x call rest (.refl x _) htaken.1).2
    obtain ⟨hlast, hbuilt⟩ := ih (after_of_call? hcall ▸ hx.after call)
      (fun call hmem => hkinds call (List.mem_cons_of_mem _ hmem)) hrest
      fun u call left hu => hkept u call left (hu.step hcall)
    refine ⟨hfirst.trans hlast, ?_⟩
    by_cases horphans : x.Orphans call
    · exact .inr ⟨x, call, rest, .refl x _, horphans⟩
    rcases hbuilt with hbuilt | ⟨u, call', left, hu, horphans⟩
    · exact .inl (hbuilt.trans (hfirst.build_eq hcall horphans))
    · exact .inr ⟨u, call', left, hu.step hcall, horphans⟩

theorem coherent_of_complete {id : CycleId} {answer : Except RequestError Bytes}
    {notice : Option ChangeNotice} (hcomplete : x.receive id answer = (y, .ok (.complete notice))) :
    y.Coherent := by
  obtain ⟨-, -, next, v, -, -, -, hadvance⟩ := receive_complete hcomplete
  obtain ⟨c, -, -, rfl⟩ := advance_complete hadvance
  rfl

end publishing

/-- A cycle has completed, and nothing but withdrawals has followed. The index has been published when
the cycle completed and wherever a sensor record was removed since. It is built from the sensor records
that are there now and from the termini of the last time it was published. So it is what would be built
now, unless a terminus has been removed since then from under a sensor. -/
theorem index_after_withdrawals {settings : ExchangeSettings} {names : EntityNames} {r : Repository}
    {t : Containment} {earlier : List Call} {id : CycleId} {answer : Except RequestError Bytes}
    {notice : Option ChangeNotice} (hsettings : settings.ownRange.Apart settings.hostRange)
    (hranges : r.ownRange.Apart r.hostRange) (hhost : r.hostRange = settings.hostRange)
    (hrun : (start settings names r t).run? earlier = some x)
    (hcomplete : x.receive id answer = (y, .ok (.complete notice)))
    (hkinds : ∀ call ∈ calls, call.runsCycles = false) (hcalls : y.run? calls = some z) :
    ∃ v later, (v = y ∧ later = calls ∨ ∃ u call, y.ComesTo calls u (call :: later) ∧
        u.call? call = some v ∧ u.TakesSensor call) ∧
      (∀ w next left, v.ComesTo later w (next :: left) → ¬ w.TakesSensor next) ∧
      z.sensors = SensorIndex.build z.sensorRecords v.termini z.settings.hostTid ∧
      (z.Coherent ∨ ∃ w next left, v.ComesTo later w (next :: left) ∧ w.Orphans next) := by
  have hx : x.Undoable := (Undoable.start names t hsettings hranges hhost).run? hrun
  have hy : y.Undoable := after_of_call? (call?_of_receive hcomplete) ▸ hx.after _
  -- what holds wherever the index has been published and is not published again
  have hpublished {v : Exchange} {later : List Call} (hv : v.Undoable) (hcoherent : v.Coherent)
      (hlater : ∀ call ∈ later, call.runsCycles = false) (hend : v.run? later = some z)
      (hkept : ∀ w next left, v.ComesTo later w (next :: left) → ¬ w.TakesSensor next) :
      z.sensors = SensorIndex.build z.sensorRecords v.termini z.settings.hostTid ∧
        (z.Coherent ∨ ∃ w next left, v.ComesTo later w (next :: left) ∧ w.Orphans next) := by
    obtain ⟨hleaves, hbuilt⟩ := run?_leaves hv hlater hend hkept
    have hsensors : z.sensors = SensorIndex.build v.sensorRecords v.termini v.settings.hostTid :=
      hleaves.sensors.trans hcoherent
    refine ⟨?_, hbuilt.imp_left fun hbuilt => hsensors.trans hbuilt.symm⟩
    rw [hsensors, hleaves.records, hleaves.settings]
  rcases ComesTo.none_or_last (E := fun u call _ => u.TakesSensor call) hcalls with
    hnone | ⟨u, call, later, v, hu, hcall, hend, htakes, hnone⟩
  · exact ⟨y, calls, .inl ⟨rfl, rfl⟩, hnone,
      hpublished hy (coherent_of_complete hcomplete) hkinds hcalls hnone⟩
  · have ⟨done, heq, hdone⟩ := hu
    subst heq
    have hudone : u.Undoable := hy.run? hdone
    have hv : v.Undoable := after_of_call? hcall ▸ hudone.after call
    obtain ⟨-, hcoherent⟩ | ⟨hkept, -⟩ := withdrawal_cases hudone hcall (hkinds call (by simp))
    · exact ⟨v, later, .inr ⟨u, call, hu, hcall, htakes⟩, hnone,
        hpublished hv hcoherent (fun call hmem => hkinds call (by simp [hmem])) hend hnone⟩
    · exact absurd htakes hkept

/-- An answer of the host with a locator of the terminus that its sensors refer to. -/
def terminusAnswer (h next : RecordHandle) : Bytes :=
  let locator : TerminusLocator := ⟨3, true, ⟨5⟩, 1, .endpoint ⟨9⟩⟩
  (RecordResponse.single next (encodeRecord h locator)).encode

/-- Of two sensors one is withdrawn, and then the terminus of both. The index was published last when
the sensor went, and the other sensor is still in it. -/
theorem index_after_withdrawals_pair :
    let seeded := (Containment.empty.addRoot ⟨11521, 1, 0⟩ .own).1
    ∃ x, (start Configuration.standard.settings ⟨[]⟩ (.empty .localDefault .hostDefault) seeded).run?
        [.resync, .request, .receive 0 (.ok (terminusAnswer 4 5)), .request,
          .receive 0 (.ok (sensorAnswer 5 6)), .request] = some x ∧
      let completed := x.receive 0 (.ok (sensorAnswer 6 RecordHandle.terminator))
      let z := (completed.1.after (.forget [5])).after (.forget [4])
      completed.2 = .ok (.complete (some ⟨[0x01000000, 0x01000001, 0x01000002], [], []⟩)) ∧
      completed.1.sensors.size = 2 ∧ z.sensors.size = 1 ∧
      ∃ v later, (v = completed.1 ∧ later = [.forget [5], .forget [4]] ∨
          ∃ u call, completed.1.ComesTo [.forget [5], .forget [4]] u (call :: later) ∧
            u.call? call = some v ∧ u.TakesSensor call) ∧
        (∀ w next left, v.ComesTo later w (next :: left) → ¬ w.TakesSensor next) ∧
        z.sensors = SensorIndex.build z.sensorRecords v.termini z.settings.hostTid ∧
        ¬ z.Coherent ∧ ∃ w next left, v.ComesTo later w (next :: left) ∧ w.Orphans next := by
  intro seeded
  have hrun : ((start Configuration.standard.settings ⟨[]⟩ (.empty .localDefault .hostDefault)
      seeded).run? [.resync, .request, .receive 0 (.ok (terminusAnswer 4 5)), .request,
        .receive 0 (.ok (sensorAnswer 5 6)), .request]).any (fun x =>
      let completed := x.receive 0 (.ok (sensorAnswer 6 RecordHandle.terminator))
      let z := (completed.1.after (.forget [5])).after (.forget [4])
      completed.2 = .ok (.complete (some ⟨[0x01000000, 0x01000001, 0x01000002], [], []⟩)) ∧
      completed.1.sensors.size = 2 ∧ z.sensors.size = 1 ∧
      z.sensors[(⟨⟨5⟩, 6⟩ : SensorKey)]?.isSome ∧
      (SensorIndex.build z.sensorRecords z.termini z.settings.hostTid)[(⟨⟨5⟩, 6⟩ : SensorKey)]? =
        none) = true := by
    decide +kernel
  obtain ⟨x, hx, hfacts⟩ := (Option.any_eq_true _ _).mp hrun
  obtain ⟨hcomplete, hpublished, hleft, hthere, hnone⟩ := of_decide_eq_true hfacts
  have hranges : HandleRange.localDefault.Apart .hostDefault := ⟨by decide, by decide, by decide⟩
  let completed := x.receive 0 (.ok (sensorAnswer 6 RecordHandle.terminator))
  have hwithdrawn : completed.1.run? [.forget [5], .forget [4]] =
      some ((completed.1.after (.forget [5])).after (.forget [4])) := rfl
  obtain ⟨v, later, hlast, hrest, hbuilt, hcoherent⟩ := index_after_withdrawals hranges hranges rfl hx
    (Prod.ext rfl hcomplete) (by simp [Call.runsCycles]) hwithdrawn
  have hstale : ¬ ((completed.1.after (.forget [5])).after (.forget [4])).Coherent := by
    unfold Coherent
    intro hcoherent
    rw [hcoherent, hnone] at hthere
    simp at hthere
  exact ⟨x, hx, hcomplete, hpublished, hleft, v, later, hlast, hrest, hbuilt, hstale,
    hcoherent.resolve_left hstale⟩

/-- The terminus of a published sensor is withdrawn. The sensor is still in the index under the id of
the terminus, and in an index built now it would not be. -/
theorem forget_leaves_stale_index :
    let seeded := (Containment.empty.addRoot ⟨11521, 1, 0⟩ .own).1
    Configuration.standard.seed = .ok (.empty .localDefault .hostDefault, seeded) ∧
    ∃ x, (start Configuration.standard.settings ⟨[]⟩ (.empty .localDefault .hostDefault) seeded).run?
        [.resync, .request, .receive 0 (.ok (terminusAnswer 4 5)), .request] = some x ∧
      let completed := x.receive 0 (.ok (sensorAnswer 5 RecordHandle.terminator))
      let z := (completed.1.forget [4]).1
      completed.2 = .ok (.complete (some ⟨[0x01000000, 0x01000001], [], []⟩)) ∧
      z.sensors[(⟨⟨5⟩, 5⟩ : SensorKey)]?.isSome ∧
      z.sensors ≠ SensorIndex.build z.sensorRecords z.termini z.settings.hostTid := by
  intro seeded
  have hrun : ((start Configuration.standard.settings ⟨[]⟩ (.empty .localDefault .hostDefault)
      seeded).run? [.resync, .request, .receive 0 (.ok (terminusAnswer 4 5)), .request]).any (fun x =>
      let completed := x.receive 0 (.ok (sensorAnswer 5 RecordHandle.terminator))
      let z := (completed.1.forget [4]).1
      completed.2 = .ok (.complete (some ⟨[0x01000000, 0x01000001], [], []⟩)) ∧
      z.sensors[(⟨⟨5⟩, 5⟩ : SensorKey)]?.isSome ∧
      (SensorIndex.build z.sensorRecords z.termini z.settings.hostTid)[(⟨⟨5⟩, 5⟩ : SensorKey)]? =
        none) = true := by
    decide +kernel
  obtain ⟨x, hx, hfacts⟩ := (Option.any_eq_true _ _).mp hrun
  obtain ⟨hcomplete, hthere, hnone⟩ := of_decide_eq_true hfacts
  refine ⟨rfl, x, hx, hcomplete, hthere, fun hcoherent => ?_⟩
  rw [hcoherent, hnone] at hthere
  simp at hthere

end Exchange
end DescriptorExchange
