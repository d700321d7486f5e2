import DescriptorExchange.Proofs.Record.StateSensor
import DescriptorExchange.Simulation.Service
import Mathlib.Data.List.Induction

/-!
Events of state sensors judged by the records themselves. Of the records for a sensor the last one
counts. An event is accepted just if that record has a block at the offset, with the bit of the state
set, and then it is passed on once.
-/
namespace DescriptorExchange

variable {records : List Bytes} {termini : Termini} {fallback : TerminusId} {key : SensorKey}
  {offset state : UInt8} {bytes : Bytes} {w : SensorRecord}
  {result : Except ChangeStatus StateChange}

namespace SensorRecord

/-- The sensor that a record is for. Its terminus is the one whose locator has the terminus handle of
the record, or the fallback if no such locator is known. -/
def sensorKey (termini : Termini) (fallback : TerminusId) (w : SensorRecord) : SensorKey :=
  ⟨(termini[w.body.terminusHandle]?.map Terminus.tid).getD fallback, w.body.sensorId⟩

/-- What the index keeps of a record. -/
def indexed (w : SensorRecord) : Sensor := ⟨w.body.entity, w.body.blocks.map StateBlock.possible⟩

theorem entryOf_sensor (w : SensorRecord) :
    SensorIndex.entryOf termini fallback w.body.sensor =
      (w.sensorKey termini fallback, w.indexed) := by
  unfold SensorIndex.entryOf sensorKey
  cases h : termini[w.body.terminusHandle]? <;> simp [SensorBody.sensor, indexed, h]

/-- The record is the last one in the list for the sensor. -/
def Latest (records : List Bytes) (termini : Termini) (fallback : TerminusId) (key : SensorKey)
    (w : SensorRecord) : Prop :=
  w.sensorKey termini fallback = key ∧ ∃ before after, records = before ++ w.bytes :: after ∧
    ∀ v : SensorRecord, v.bytes ∈ after → v.sensorKey termini fallback ≠ key

theorem Latest.concat (h : w.Latest records termini fallback key)
    (hother : ∀ v : SensorRecord, v.bytes = bytes → v.sensorKey termini fallback ≠ key) :
    w.Latest (records ++ [bytes]) termini fallback key := by
  obtain ⟨hkey, before, after, rfl, hafter⟩ := h
  refine ⟨hkey, before, after ++ [bytes], by simp, fun v hv => ?_⟩
  rcases List.mem_append.mp hv with hv | hv
  · exact hafter v hv
  · exact hother v (List.mem_singleton.mp hv)

/-- Of a sensor that has a record there is a last one. -/
theorem latest_or_none (records : List Bytes) (termini : Termini) (fallback : TerminusId)
    (key : SensorKey) : (∃ w : SensorRecord, w.Latest records termini fallback key) ∨
      ∀ w : SensorRecord, w.bytes ∈ records → w.sensorKey termini fallback ≠ key := by
  induction records using List.reverseRecOn with
  | nil => exact .inr (by simp)
  | append_singleton records bytes ih =>
    by_cases hlast : ∃ w : SensorRecord, w.bytes = bytes ∧ w.sensorKey termini fallback = key
    · obtain ⟨w, rfl, hkey⟩ := hlast
      exact .inl ⟨w, hkey, records, [], rfl, by simp⟩
    · have hother (v : SensorRecord) (hv : v.bytes = bytes) : v.sensorKey termini fallback ≠ key :=
        fun hkey => hlast ⟨v, hv, hkey⟩
      refine ih.imp (fun ⟨w, hw⟩ => ⟨w, hw.concat hother⟩) fun hnone w hw => ?_
      rcases List.mem_append.mp hw with hw | hw
      · exact hnone w hw
      · exact hother w (List.mem_singleton.mp hw)

end SensorRecord

namespace SensorIndex

/-- A further record that can be read takes the place of those before it for the same sensor. -/
theorem build_concat_record (w : SensorRecord) : build (records ++ [w.bytes]) termini fallback =
    (build records termini fallback).insert (w.sensorKey termini fallback) w.indexed := by
  have hdecode := SensorRecord.decodeRecord_eq_ok.mpr ⟨w, rfl, rfl, rfl⟩
  simp only [build, List.foldl_append, List.foldl_cons, List.foldl_nil, hdecode, w.entryOf_sensor]

/-- One that cannot be read is passed over. -/
theorem build_concat_other (h : ∀ w : SensorRecord, w.bytes ≠ bytes) :
    build (records ++ [bytes]) termini fallback = build records termini fallback := by
  cases hdecode : decodeRecord StateSensor bytes with
  | error e => simp only [build, List.foldl_append, List.foldl_cons, List.foldl_nil, hdecode]
  | ok found =>
    obtain ⟨w, hw, -⟩ := SensorRecord.decodeRecord_eq_ok.mp hdecode
    exact absurd hw.symm (h w)

/-- Records for other sensors leave a sensor as it is. -/
theorem getElem?_build_append (before after : List Bytes)
    (hother : ∀ w : SensorRecord, w.bytes ∈ after → w.sensorKey termini fallback ≠ key) :
    (build (before ++ after) termini fallback)[key]? = (build before termini fallback)[key]? := by
  induction after using List.reverseRecOn with
  | nil => rw [List.append_nil]
  | append_singleton after bytes ih =>
    rw [← ih fun w hw => hother w (List.mem_append_left _ hw), ← List.append_assoc]
    by_cases hread : ∃ w : SensorRecord, w.bytes = bytes
    · obtain ⟨w, rfl⟩ := hread
      rw [build_concat_record, Std.ExtTreeMap.getElem?_insert,
        if_neg (by simpa using hother w (by simp))]
    · rw [build_concat_other (not_exists.mp hread)]

/-- The index has what the last record for a sensor says. -/
theorem getElem?_build_of_latest (h : w.Latest records termini fallback key) :
    (build records termini fallback)[key]? = some w.indexed := by
  obtain ⟨rfl, before, after, rfl, hafter⟩ := h
  rw [List.append_cons, getElem?_build_append _ _ hafter, build_concat_record,
    Std.ExtTreeMap.getElem?_insert_self]

theorem getElem?_build_of_none
    (h : ∀ w : SensorRecord, w.bytes ∈ records → w.sensorKey termini fallback ≠ key) :
    (build records termini fallback)[key]? = none :=
  (getElem?_build_append [] records h).trans Std.ExtTreeMap.getElem?_empty

/-- A sensor that is known is asked for its block at the offset. -/
theorem report_of_known {index : SensorIndex} {sensor : Sensor} (offset state : UInt8)
    (h : index[key]? = some sensor) :
    index.report key offset state = match sensor.possibleStates[offset.toNat]? with
      | none => .error .invalidOffset
      | some block =>
        if block.states.contains state then
          .ok { key, entity := sensor.entity, setId := block.setId, offset, state }
        else .error .invalidState := by
  simp only [report, accept, h, Sensor.setIds, List.getElem?_map]
  cases sensor.possibleStates[offset.toNat]? with
  | none => rfl
  | some block => simp

end SensorIndex

/-- What an event comes to by the records. -/
inductive Judged (records : List Bytes) (termini : Termini) (fallback : TerminusId)
    (key : SensorKey) (offset state : UInt8) : Except ChangeStatus StateChange → Prop
  | unknownSensor
      (hnone : ∀ w : SensorRecord, w.bytes ∈ records → w.sensorKey termini fallback ≠ key) :
      Judged records termini fallback key offset state (.error .unknownSensor)
  | invalidOffset {w : SensorRecord} (hlatest : w.Latest records termini fallback key)
      (hblock : w.body.blocks[offset.toNat]? = none) :
      Judged records termini fallback key offset state (.error .invalidOffset)
  | invalidState {w : SensorRecord} {b : StateBlock}
      (hlatest : w.Latest records termini fallback key)
      (hblock : w.body.blocks[offset.toNat]? = some b) (hstate : ¬ b.Shows state) :
      Judged records termini fallback key offset state (.error .invalidState)
  | accepted {w : SensorRecord} {b : StateBlock}
      (hlatest : w.Latest records termini fallback key)
      (hblock : w.body.blocks[offset.toNat]? = some b) (hstate : b.Shows state) :
      Judged records termini fallback key offset state
        (.ok { key, entity := w.body.entity, setId := b.setId, offset, state })

namespace Judged

/-- Every event comes to something. -/
theorem total (records : List Bytes) (termini : Termini) (fallback : TerminusId) (key : SensorKey)
    (offset state : UInt8) : ∃ result, Judged records termini fallback key offset state result := by
  rcases SensorRecord.latest_or_none records termini fallback key with ⟨w, hlatest⟩ | hnone
  · cases hblock : w.body.blocks[offset.toNat]? with
    | none => exact ⟨_, .invalidOffset hlatest hblock⟩
    | some b =>
      by_cases hstate : b.Shows state
      · exact ⟨_, .accepted hlatest hblock hstate⟩
      · exact ⟨_, .invalidState hlatest hblock hstate⟩
  · exact ⟨_, .unknownSensor hnone⟩

/-- The index comes to the same. -/
theorem report (h : Judged records termini fallback key offset state result) :
    (SensorIndex.build records termini fallback).report key offset state = result := by
  have hknown {w : SensorRecord} (hlatest : w.Latest records termini fallback key) :=
    SensorIndex.report_of_known offset state (SensorIndex.getElem?_build_of_latest hlatest)
  cases h with
  | unknownSensor hnone =>
    simp only [SensorIndex.report, SensorIndex.getElem?_build_of_none hnone]
  | invalidOffset hlatest hblock =>
    rw [hknown hlatest]
    simp only [SensorRecord.indexed, List.getElem?_map, hblock, Option.map_none]
  | invalidState hlatest hblock hstate =>
    rw [← StateBlock.contains_possible] at hstate
    rw [hknown hlatest]
    simp only [SensorRecord.indexed, List.getElem?_map, hblock, Option.map_some, if_neg hstate]
  | accepted hlatest hblock hstate =>
    rw [← StateBlock.contains_possible] at hstate
    rw [hknown hlatest]
    simp only [SensorRecord.indexed, List.getElem?_map, hblock, Option.map_some, if_pos hstate]
    rfl

end Judged

/-- An event is judged by the records: the index that is built of them comes to the same, and the
service passes it on once if it is accepted, and else not at all. -/
theorem report_matches_records (records : List Bytes) (termini : Termini) (fallback : TerminusId)
    (key : SensorKey) (offset state : UInt8) :
    (∀ result, (SensorIndex.build records termini fallback).report key offset state = result ↔
      Judged records termini fallback key offset state result) ∧
    ∀ (s : Service) (m : Message) (result : Except ChangeStatus StateChange),
      s.world.coordinator.exchange.sensors = SensorIndex.build records termini fallback →
      HostRequest.ofMessage m = .stateChange key offset state →
      Judged records termini fallback key offset state result →
      s.respond m = ({ s with world.changes := s.world.changes ++ result.toOption.toList },
        HostRequest.completionBody <| match result with
          | .ok _ => .success
          | .error status => status.completion) := by
  constructor
  · intro result
    refine ⟨?_, Judged.report⟩
    rintro rfl
    obtain ⟨result, hresult⟩ := Judged.total records termini fallback key offset state
    rwa [hresult.report]
  · intro s m result hpublished hm hresult
    simp only [Service.respond, hm, hpublished, hresult.report]
    cases result with
    | ok change => rfl
    | error status => simp [Except.toOption]

/-- Two records for one sensor, and one that cannot be read. -/
def repeatedSensor : List Bytes :=
  [encodeRecord 1 (⟨1, 5, ⟨45, 1, 0⟩, 0, false, [⟨10, .ofList [1, 2]⟩]⟩ : StateSensor), [],
    encodeRecord 2 (⟨1, 5, ⟨45, 2, 0⟩, 0, false, [⟨11, .ofList [9]⟩]⟩ : StateSensor)]

/-- A service with the index of these records is told of a state that only the later one has. -/
theorem report_matches_records_later :
    let index := SensorIndex.build repeatedSensor ∅ ⟨1⟩
    let exchange := Exchange.start .standard ⟨[]⟩ (.empty .localDefault .hostDefault) .empty
    let s : Service :=
      { world := .start (.start { exchange with sensors := index } true) .standard default
        supervisor := .start false, script := [], attempts := 0, ages := [] }
    let event : PlatformEvent := .make ⟨1⟩ .sensor (SensorEvent.encode ⟨5, .stateChange 0 9 0⟩)
    let m : Message := ⟨.forRequest ⟨0⟩ .platform PlatformEvent.command, event.encode⟩
    let change : StateChange := ⟨⟨⟨1⟩, 5⟩, ⟨45, 2, 0⟩, 11, 0, 9⟩
    HostRequest.ofMessage m = .stateChange ⟨⟨1⟩, 5⟩ 0 9 ∧
      Judged repeatedSensor ∅ ⟨1⟩ ⟨⟨1⟩, 5⟩ 0 9 (.ok change) ∧
      s.respond m = ({ s with world.changes := s.world.changes ++ [change] },
        HostRequest.completionBody .success) := by
  intro index exchange s event m change
  obtain ⟨hreport, hrespond⟩ := report_matches_records repeatedSensor ∅ ⟨1⟩ ⟨⟨1⟩, 5⟩ 0 9
  have hjudged := (hreport (.ok change)).mp (by decide +kernel)
  exact ⟨rfl, hjudged, hrespond s m _ rfl rfl hjudged⟩

end DescriptorExchange
