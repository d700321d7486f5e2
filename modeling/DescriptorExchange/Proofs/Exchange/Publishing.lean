import DescriptorExchange.Proofs.Configuration.Seeding
import DescriptorExchange.Proofs.Exchange.Agenda

/-!
When the sensor index is published. A cycle that completes publishes it, and so does a withdrawal of
a sensor record. An answer that does not complete its cycle leaves the index as it was, unless it
brings a record that has been stored as a state sensor: the old record is removed before the new one
is stored, and the index in between is published.
-/
namespace DescriptorExchange.Exchange

variable {x y : Exchange}

/-- The state sensor that a record of the host is stored as. -/
def storedSensor? (x : Exchange) (h : RecordHandle) : Option RecordHandle :=
  match x.imports[h]? with
  | some (.stored k) =>
    (x.repository.get? k).bind fun record => if record.type = .stateSensor then some k else none
  | _ => none

/-- The index as it is published once a stored record has been removed. -/
def sensorsWithout (x : Exchange) (k : RecordHandle) : SensorIndex :=
  { x with repository := x.repository.erase k }.publishSensors.sensors

theorem mergeChild_sensors (x : Exchange) (node : NodeId) (parent : Entity) (kind : UInt8)
    (child : Entity) : (x.mergeChild node parent kind child).1.sensors = x.sensors :=
  mergeChild_induction (p := fun y => y.sensors = x.sensors) rfl
    (fun _ placement _ => by cases placement <;> rfl) (fun _ _ _ _ _ _ hy => hy) fun _ _ hy => hy

theorem merge_sensors (x : Exchange) (h : RecordHandle) (a : Association) :
    (x.merge h a).1.sensors = x.sensors :=
  merge_induction (p := fun y => y.sensors = x.sensors) rfl rfl
    (fun node parent y child hy => (mergeChild_sensors y node parent a.kind child).trans hy)
    fun _ _ hy => hy

theorem unmerge_sensors (x : Exchange) (k : RecordHandle) (child : Entity) :
    (x.unmerge k child).1.sensors = x.sensors := by
  obtain ⟨tree, repository, notices, h⟩ := x.unmerge_eq k child
  rw [h]

theorem unmergeAll_sensors (k : RecordHandle) (children : List Entity) (x : Exchange) :
    (unmergeAll k children x).1.sensors = x.sensors :=
  unmergeAll_induction (p := fun y => y.sensors = x.sensors)
    (fun y child hy => (unmerge_sensors y k child).trans hy) children rfl

theorem classify_sensors (x : Exchange) (header : RecordHeader) (record : Bytes) :
    (x.classify header record).1.sensors = x.sensors := by
  rcases classify_uniform header record with hskip | ⟨⟨_, a⟩, -, hmerge⟩ | ⟨note, -, hstore⟩
  · rw [hskip]
    rfl
  · rw [hmerge]
    exact merge_sensors x header.handle a
  · rw [hstore]
    unfold store
    split <;> rfl

/-- Removing a stored sensor record changes nothing else. -/
theorem dropStored_of_sensor {k : RecordHandle} {old : Record} (hget : x.repository.get? k = some old)
    (htype : old.type = .stateSensor) :
    x.dropStored k = ({ x with repository := x.repository.erase k }, [k], true) := by
  simp only [dropStored, hget, htype, if_true]

/-- Removing any other stored record does not call for a new index. -/
theorem dropStored_of_other {k : RecordHandle}
    (hother : ∀ old, x.repository.get? k = some old → old.type ≠ .stateSensor) :
    (x.dropStored k).1.sensors = x.sensors ∧ (x.dropStored k).2.2 = false := by
  unfold dropStored
  cases hget : x.repository.get? k with
  | none => exact ⟨rfl, rfl⟩
  | some old =>
    simp only [if_neg (hother old hget)]
    split_ifs
    · split <;> exact ⟨rfl, rfl⟩
    · exact ⟨rfl, rfl⟩

/-- Forgetting one record publishes the index if the record is stored as a state sensor. -/
theorem forget_sensors (x : Exchange) (h : RecordHandle) :
    (x.forget [h]).1.sensors = ((x.storedSensor? h).map x.sensorsWithout).getD x.sensors := by
  cases himport : x.imports[h]? with
  | none => simp [forget, dropImports, dropImport, storedSensor?, himport]
  | some imported =>
    let rest := { x with imports := x.imports.erase h }
    cases imported with
    | merged parent children k =>
      have hundone : (unmergeAll k children rest).1.sensors = x.sensors :=
        unmergeAll_sensors k children rest
      simp only [forget, dropImports, dropImport, storedSensor?, himport]
      cases hall : unmergeAll k children rest with
      | mk y result =>
        rw [hall] at hundone
        cases result <;> exact hundone
    | stored k =>
      simp only [forget, dropImports, dropImport, storedSensor?, himport, Bool.or_false]
      by_cases hsensor : ∃ old, x.repository.get? k = some old ∧ old.type = .stateSensor
      · obtain ⟨old, hget, htype⟩ := hsensor
        rw [show rest.dropStored k = _ from dropStored_of_sensor hget htype]
        simp only [hget, Option.bind_some, htype, if_true]
        rfl
      · simp only [not_exists, not_and] at hsensor
        obtain ⟨hsensors, hflag⟩ := dropStored_of_other (x := rest) hsensor
        have hnone : ((x.repository.get? k).bind fun record =>
            if record.type = .stateSensor then some k else none) = none := by
          simpa using hsensor
        rw [hnone, show (rest.dropStored k).2.2 = false from hflag]
        exact hsensors

theorem importRecord_sensors (x : Exchange) (record : Bytes) :
    (x.importRecord record).1.sensors =
      (((ownHandle? record).bind x.storedSensor?).map x.sensorsWithout).getD x.sensors := by
  rcases x.importRecord_cases record with ⟨e, hsplit, heq⟩ | ⟨header, body, hsplit, hcases⟩
  · simp only [ownHandle?, hsplit, heq]
    rfl
  have hforget : ((x.see header.handle).forget [header.handle]).1.sensors =
      ((x.storedSensor? header.handle).map x.sensorsWithout).getD x.sensors :=
    forget_sensors _ header.handle
  simp only [ownHandle?, hsplit, Except.toOption, Option.map_some, Option.bind_some, ← hforget]
  rcases hcases with ⟨hnew, heq⟩ | ⟨-, ⟨y, e, hfails, heq⟩ | ⟨y, touched, hforgot, heq⟩⟩
  · have hnone : x.imports[header.handle]? = none := Std.ExtTreeMap.getElem?_eq_none hnew
    rw [heq, classify_sensors, hforget, storedSensor?, hnone]
    rfl
  · rw [heq, hfails]
  · rw [heq, hforgot, classify_sensors]
    rfl

theorem receive_publishes {cycle : CycleId} {answer : Except RequestError Bytes}
    {result : Except ExchangeError FetchOutcome} (h : x.receive cycle answer = (y, result))
    (hgoes : ∀ notice, result ≠ .ok (.complete notice)) :
    y.sensors =
      (((x.brought? cycle answer).bind x.storedSensor?).map x.sensorsWithout).getD x.sensors := by
  cases hawaited : x.awaited? cycle with
  | none =>
    obtain ⟨rfl, -⟩ := Prod.mk.inj ((receive_of_stray hawaited answer).symm.trans h)
    simp only [brought?, hawaited]
    rfl
  | some handle =>
    obtain ⟨c, hc, rfl, hflight⟩ := awaited?_eq_some.mp hawaited
    rw [brought?_of_awaited hawaited]
    rcases receive_of_inFlight hc hflight h with
      ⟨e, hread, rfl, -⟩ | ⟨record, next, hread, hrecord⟩
    · rw [hread]
      rfl
    rw [hread]
    have himport := (x.answered c).importRecord_sensors record
    rcases hrecord with ⟨z, e, heq, rfl, -⟩ | ⟨z, heq, hadvance⟩
    · rw [heq] at himport
      exact himport
    · rw [heq] at himport
      rcases advance_cases hadvance with ⟨-, rfl, -⟩ | ⟨d, -, ⟨rfl, -⟩ | ⟨-, hcomplete⟩ | ⟨rfl, -⟩⟩
      · exact himport
      · exact himport
      · exact absurd hcomplete (hgoes _)
      · exact himport

/-- An answer that does not complete its cycle publishes the index only if it brings a record that
is stored as a state sensor, and then without that sensor. -/
theorem receive_sensors {cycle : CycleId} {answer : Except RequestError Bytes}
    {result : Except ExchangeError FetchOutcome} (h : x.receive cycle answer = (y, result))
    (hgoes : ∀ notice, result ≠ .ok (.complete notice)) :
    y.sensors = match (x.brought? cycle answer).bind x.storedSensor? with
      | none => x.sensors
      | some k => x.sensorsWithout k := by
  rw [receive_publishes h hgoes]
  cases (x.brought? cycle answer).bind x.storedSensor? <;> rfl

/-- An answer of the host with a state sensor in it. -/
def sensorAnswer (h next : RecordHandle) : Bytes :=
  let sensor : StateSensor := ⟨3, h.toUInt16, ⟨1, 1, 1⟩, 0, false, []⟩
  (RecordResponse.single next (encodeRecord h sensor)).encode

/-- The first of two sensors is stored, and the index is still empty. -/
theorem receive_sensors_first :
    let x := (default : Exchange).beginResync.1.nextRequest.1
    let answered := x.receive 0 (.ok (sensorAnswer 5 6))
    answered.2 = .ok .proceed ∧ answered.1.counts.stored = 1 ∧
      answered.1.sensors = match (x.brought? 0 (.ok (sensorAnswer 5 6))).bind x.storedSensor? with
        | none => x.sensors
        | some k => x.sensorsWithout k := by
  intro x answered
  have hproceed : answered.2 = .ok .proceed := by decide +kernel
  have hgoes (notice : Option ChangeNotice) :
      (.ok .proceed : Except ExchangeError FetchOutcome) ≠ .ok (.complete notice) := by simp
  exact ⟨hproceed, by decide +kernel, receive_sensors (Prod.ext rfl hproceed) hgoes⟩

/-- Two sensors have been published. While the first of them is being fetched again, the index is
published without it. -/
theorem receive_publishes_meanwhile :
    let seeded := (Containment.empty.addRoot ⟨11521, 1, 0⟩ .own).1
    Configuration.standard.seed = .ok (.empty .localDefault .hostDefault, seeded) ∧
    ∃ x, (start Configuration.standard.settings ⟨[]⟩ (.empty .localDefault .hostDefault) seeded).run?
        [.resync, .request, .receive 0 (.ok (sensorAnswer 5 6)), .request,
          .receive 0 (.ok (sensorAnswer 6 RecordHandle.terminator)), .fetch [5, 6],
          .request] = some x ∧
      (x.receive 1 (.ok (sensorAnswer 5 6))).2 = .ok .proceed ∧
      x.sensors.size = 2 ∧ (x.receive 1 (.ok (sensorAnswer 5 6))).1.sensors.size = 1 := by
  intro seeded
  have hrun : ((start Configuration.standard.settings ⟨[]⟩ (.empty .localDefault .hostDefault)
      seeded).run? [.resync, .request, .receive 0 (.ok (sensorAnswer 5 6)), .request,
        .receive 0 (.ok (sensorAnswer 6 RecordHandle.terminator)), .fetch [5, 6],
        .request]).any (fun x =>
      (x.receive 1 (.ok (sensorAnswer 5 6))).2 = .ok .proceed ∧
      x.sensors.size = 2 ∧ (x.receive 1 (.ok (sensorAnswer 5 6))).1.sensors.size = 1) = true := by
    decide +kernel
  obtain ⟨x, hx, hfacts⟩ := (Option.any_eq_true _ _).mp hrun
  exact ⟨rfl, x, hx, of_decide_eq_true hfacts⟩

/-- The calls that may publish the index: records are withdrawn, an answer completes a cycle, or an
answer brings a record that is stored as a state sensor. -/
def Publishes (x : Exchange) : Call → Prop
  | .forget _ => True
  | .receive cycle answer => (∃ notice, (x.receive cycle answer).2 = .ok (.complete notice)) ∨
    ((x.brought? cycle answer).bind x.storedSensor?).isSome
  | _ => False

theorem retractImports_sensors (imports : List Import) (x : Exchange) :
    (retractImports imports x).1.sensors = x.sensors :=
  retractImports_induction (p := fun y => y.sensors = x.sensors)
    (fun _ _ k _ y child hy => (unmerge_sensors y k child).trans hy) rfl

/-- A call that does not publish the index leaves it as it is. -/
theorem call?_sensors {call : Call} (h : x.call? call = some y) (hquiet : ¬ x.Publishes call) :
    y.sensors = x.sensors := by
  cases call with
  | resync =>
    obtain rfl := Option.some.inj h
    exact retractImports_sensors _ _
  | fetch handles =>
    obtain rfl := Option.some.inj h
    rcases x.beginFetch_cases handles with ⟨c, -, heq⟩ | ⟨-, heq⟩ | ⟨-, phase, heq⟩
    · rw [heq]
    · rw [heq]
    · rw [heq]
      rfl
  | request =>
    obtain rfl := Option.some.inj h
    rcases x.nextRequest_cases with heq | heq | ⟨c, handle, rest, phase, -, -, -, heq⟩
    · rw [heq]
    · rw [heq]
      rfl
    · rw [heq]
  | receive cycle answer =>
    obtain ⟨result, hreceive, -⟩ := call?_receive h
    simp only [Publishes, hreceive, not_or, not_exists] at hquiet
    have hnone := Option.not_isSome_iff_eq_none.mp hquiet.2
    have hsensors := receive_publishes hreceive hquiet.1
    rwa [hnone] at hsensors
  | forget handles => exact absurd trivial hquiet
  | hostDown =>
    obtain rfl := Option.some.inj h
    exact x.invalidateTermini_sensors
  | link up =>
    obtain rfl := Option.some.inj h
    rfl

/-- A run none of whose calls publishes the index leaves it as it is. -/
theorem run?_sensors {calls : List Call} (hrun : x.run? calls = some y)
    (hquiet : ∀ u call later, x.ComesTo calls u (call :: later) → ¬ u.Publishes call) :
    y.sensors = x.sensors := by
  induction calls generalizing x with
  | nil =>
    obtain rfl := Option.some.inj hrun
    rfl
  | cons call rest ih =>
    obtain ⟨mid, hcall, hrest⟩ := Option.bind_eq_some_iff.mp hrun
    have hfirst := call?_sensors hcall (hquiet x call rest (.refl x _))
    exact (ih hrest fun u call' later hu => hquiet u call' later (hu.step hcall)).trans hfirst

end DescriptorExchange.Exchange
