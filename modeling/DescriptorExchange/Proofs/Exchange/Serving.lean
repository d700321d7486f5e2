import DescriptorExchange.Proofs.Exchange.Lengths
import DescriptorExchange.Proofs.Repository.Enumeration
import DescriptorExchange.Responder

/-!
Serving the repository. No record is too long for the answer that hands it on to fit a frame. A host
that asks for the first record and then for each that is said to come next gets every record once,
in the order of their handles.
-/
namespace DescriptorExchange

open Repository

namespace Exchange

variable {x : Exchange}

/-- The frame in which a host asks for a record. -/
def askingFrame (eid : EndpointId) (iid : InstanceId) (handle : RecordHandle) : Frame :=
  ⟨eid, MessageHeader.forRequest iid .platform RecordRequest.command,
    (RecordRequest.whole handle).encode⟩

/-- The frame that answers a request for a record. -/
def answeringFrame? (x : Exchange) (request : Frame) : Option Frame :=
  match HostRequest.ofMessage request.message with
  | .record asked => some ⟨request.eid, request.message.header.response, (x.serve asked).encode⟩
  | _ => none

/-- What a host reads that asks for a record, where request and answer come in frames: the record
and the handle that is said to come next. -/
def handOut? (x : Exchange) (eid : EndpointId) (iid : InstanceId) (handle : RecordHandle) :
    Option (Bytes × RecordHandle) := do
  let request ← (askingFrame eid iid handle).carry?
  let answer ← (x.answeringFrame? request).bind Frame.carry?
  (readAnswer handle (.ok answer.message.payload)).toOption

/-- A host asks for a record and then for each that is said to come next, until that is the
terminator. It has got one record for each request. -/
inductive ReadsOut (x : Exchange) (eid : EndpointId) (iid : InstanceId) :
    RecordHandle → List Bytes → Prop
  | last {handle : RecordHandle} {record : Bytes}
      (hhand : x.handOut? eid iid handle = some (record, RecordHandle.terminator)) :
      ReadsOut x eid iid handle [record]
  | next {handle next : RecordHandle} {record : Bytes} {records : List Bytes}
      (hhand : x.handOut? eid iid handle = some (record, next))
      (hnext : next ≠ RecordHandle.terminator) (hrest : ReadsOut x eid iid next records) :
      ReadsOut x eid iid handle (record :: records)

theorem serve_of_found {request : RecordRequest} {k next : RecordHandle} {record : Record}
    (h : x.repository.getWithNext? request.handle = some (k, record, next)) :
    x.serve request = .single next record.bytes := by
  simp only [serve, h]

theorem serve_of_missing {request : RecordRequest}
    (h : x.repository.getWithNext? request.handle = none) :
    x.serve request = .refusal .invalidRecordHandle := by
  simp only [serve, h]

/-- The request is served as it was made. -/
theorem answeringFrame?_arrived (x : Exchange) (eid : EndpointId) (iid : InstanceId)
    (handle : RecordHandle) : ∃ header, x.answeringFrame? (askingFrame eid iid handle).arrived =
      some ⟨eid, header, (x.serve (.whole handle)).encode⟩ := by
  have hmessage : HostRequest.ofMessage (askingFrame eid iid handle).arrived.message =
      .record (.whole handle) := by
    have hdecode : RecordRequest.decode (askingFrame eid iid handle).arrived.message.payload =
        .ok (.whole handle) := RecordRequest.decode_encode (.whole handle)
    unfold HostRequest.ofMessage
    rw [if_neg (fun h => absurd h.2 (by decide : RecordRequest.command ≠ PlatformEvent.command)),
      if_pos ⟨rfl, rfl⟩, hdecode]
  exact ⟨(askingFrame eid iid handle).arrived.message.header.response, by
    simp only [answeringFrame?, hmessage]
    rfl⟩

section serving

variable (hx : x.repository.Capped RecordResponse.maxRecord)
include hx

omit hx in
theorem length_of_getWithNext? {limit : Nat} {r : Repository} {handle k next : RecordHandle}
    {record : Record} (hr : r.Capped limit) (h : r.getWithNext? handle = some (k, record, next)) :
    record.bytes.length ≤ limit := by
  obtain ⟨before, after, hlist, -⟩ := getWithNext?_eq_some h
  exact hr k record (mem_toList.mp (hlist ▸ by simp))

theorem serve_fits (request : RecordRequest) :
    (x.serve request).encode.length ≤ Frame.maxPayload := by
  cases hfound : x.repository.getWithNext? request.handle with
  | none =>
    rw [serve_of_missing hfound]
    decide
  | some found =>
    obtain ⟨k, record, next⟩ := found
    have hlen := length_of_getWithNext? hx hfound
    have hroom : RecordResponse.overhead ≤ Frame.maxPayload := by decide
    rw [serve_of_found hfound, RecordResponse.length_encode_single]
    unfold RecordResponse.maxRecord at hlen
    omega

theorem handOut?_eq (eid : EndpointId) (iid : InstanceId) (handle : RecordHandle) :
    x.handOut? eid iid handle =
      (x.repository.getWithNext? handle).map fun found => (found.2.1.bytes, found.2.2) := by
  have hasking : (askingFrame eid iid handle).carry? =
      some (askingFrame eid iid handle).arrived := by
    apply Frame.carry?_eq
    simp [askingFrame, RecordRequest.encode, RecordRequest.whole]
    decide
  obtain ⟨header, hanswering⟩ := answeringFrame?_arrived x eid iid handle
  let answer : Frame := ⟨eid, header, (x.serve (.whole handle)).encode⟩
  have hcarried : answer.carry? = some answer.arrived :=
    Frame.carry?_eq (serve_fits hx (.whole handle))
  unfold handOut?
  rw [hasking, Option.bind_eq_bind, Option.bind_some, hanswering, Option.bind_some, hcarried,
    Option.bind_some, Frame.arrived_payload]
  change (readAnswer handle (.ok (x.serve (.whole handle)).encode)).toOption = _
  cases hfound : x.repository.getWithNext? handle with
  | none =>
    rw [serve_of_missing hfound, readAnswer_refusal (by decide)]
    rfl
  | some found =>
    obtain ⟨k, record, next⟩ := found
    have hlen : record.bytes.length < 65536 :=
      Nat.lt_of_le_of_lt (length_of_getWithNext? hx hfound) (by decide)
    rw [serve_of_found hfound, readAnswer_single hlen]
    rfl

theorem readsOut_iff {eid : EndpointId} {iid : InstanceId} {handle k : RecordHandle}
    {record : Record} {before after : List (RecordHandle × Record)} {records : List Bytes}
    (hlist : x.repository.toList = before ++ (k, record) :: after)
    (hfound : x.repository.getWithNext? handle = some (k, record, upcoming after)) :
    x.ReadsOut eid iid handle records ↔
      records = record.bytes :: after.map fun entry => entry.2.bytes := by
  have hhand : x.handOut? eid iid handle = some (record.bytes, upcoming after) := by
    rw [handOut?_eq hx, hfound]
    rfl
  induction after generalizing before handle k record records with
  | nil =>
    constructor
    · rintro (⟨hlast⟩ | ⟨hnext, hne, -⟩)
      · rw [hhand] at hlast
        obtain ⟨rfl, -⟩ := Prod.mk.inj (Option.some.inj hlast)
        rfl
      · rw [hhand] at hnext
        obtain ⟨-, rfl⟩ := Prod.mk.inj (Option.some.inj hnext)
        exact absurd rfl hne
    · rintro rfl
      exact .last hhand
  | cons entry rest ih =>
    have hne : upcoming (entry :: rest) ≠ RecordHandle.terminator :=
      upcoming_ne hlist (by simp)
    have hlist' : x.repository.toList = (before ++ [(k, record)]) ++ entry :: rest := by
      simpa using hlist
    have hfound' : x.repository.getWithNext? (upcoming (entry :: rest)) = _ :=
      getWithNext?_at hlist' hne
    have hhand' : x.handOut? eid iid (upcoming (entry :: rest)) =
        some (entry.2.bytes, upcoming rest) := by
      rw [handOut?_eq hx, hfound']
      rfl
    constructor
    · rintro (⟨hlast⟩ | ⟨hnext, -, hrest⟩)
      · rw [hhand] at hlast
        exact absurd (Prod.mk.inj (Option.some.inj hlast)).2 hne
      · rw [hhand] at hnext
        obtain ⟨rfl, rfl⟩ := Prod.mk.inj (Option.some.inj hnext)
        rw [(ih hlist' hfound' hhand').mp hrest]
        rfl
    · rintro rfl
      exact .next hhand hne ((ih hlist' hfound' hhand').mpr rfl)

end serving

variable {c : Configuration} {r : Repository} {t : Containment} {calls : List Call}

/-- A host that asks for the first record and then for each that is said to come next gets every
record of the repository once, in the order of their handles and in as many requests. Whatever the
request, the answer fits a frame and is read as it was meant: the record and the handle after it, or
that there is no such record. -/
theorem host_reads_out (hseed : c.seed = .ok (r, t)) (names : EntityNames)
    (hcalls : ∀ call ∈ calls, call.Framed) (eid : EndpointId) (iid : InstanceId) :
    let x := (start c.settings names r t).afterAll calls
    let entries := x.repository.toList
    (∀ k record, (k, record) ∈ entries ↔ x.repository.get? k = some record) ∧
      (entries.Pairwise fun a b => a.1 < b.1) ∧
      (∀ records, x.ReadsOut eid iid RecordHandle.terminator records ↔
        entries ≠ [] ∧ records = entries.map fun entry => entry.2.bytes) ∧
      (∀ header request, ∃ stream,
        Frame.encode ⟨eid, header, (x.serve request).encode⟩ = .ok stream) ∧
      (∀ before k record after, entries = before ++ (k, record) :: after →
        ∀ request : RecordRequest, (request.handle = k ∧ k ≠ RecordHandle.terminator) ∨
            (request.handle = RecordHandle.terminator ∧ before = []) →
          RecordResponse.decode (x.serve request).encode =
            .ok (.single (upcoming after) record.bytes)) ∧
      ∀ request : RecordRequest,
        (request.handle ≠ RecordHandle.terminator ∧ x.repository.get? request.handle = none) ∨
            (request.handle = RecordHandle.terminator ∧ entries = []) →
          RecordResponse.decode (x.serve request).encode =
            .ok (.refusal .invalidRecordHandle) := by
  intro x entries
  have hx : x.repository.Capped RecordResponse.maxRecord :=
    afterAll_induction (p := fun x => x.repository.Capped RecordResponse.maxRecord)
      (fun _ _ hp hframed => after_capped hp hframed) hcalls (plant_capped (capped_empty _ _) hseed)
  refine ⟨fun k record => mem_toList, x.repository.toList_pairwise, fun records => ?_,
    fun header request => Frame.encode_eq_ok_iff.mpr (serve_fits hx request), ?_, ?_⟩
  · cases hlist : x.repository.toList with
    | nil =>
      have hnone : x.repository.getWithNext? RecordHandle.terminator = none :=
        getWithNext?_eq_none.mpr (.inr ⟨rfl, hlist⟩)
      have hhand : x.handOut? eid iid RecordHandle.terminator = none := by
        rw [handOut?_eq hx, hnone]
        rfl
      constructor
      · rintro (⟨hlast⟩ | ⟨hnext, -, -⟩)
        · simp [hhand] at hlast
        · simp [hhand] at hnext
      · rintro ⟨hne, -⟩
        exact absurd hlist hne
    | cons entry after =>
      have hfirst : x.repository.toList = [] ++ (entry.1, entry.2) :: after := hlist
      have hreads : x.ReadsOut eid iid RecordHandle.terminator records ↔ _ :=
        readsOut_iff hx hfirst (getWithNext?_first hlist)
      simpa [entries, hlist] using hreads
  · intro before k record after hlist request hrequest
    have hfound : x.repository.getWithNext? request.handle = some (k, record, upcoming after) := by
      rcases hrequest with ⟨rfl, hne⟩ | ⟨hzero, rfl⟩
      · exact getWithNext?_at hlist hne
      · rw [hzero]
        exact getWithNext?_first hlist
    rw [serve_of_found hfound]
    exact RecordResponse.decode_encode_single
      (Nat.lt_of_le_of_lt (length_of_getWithNext? hx hfound) (by decide))
  · intro request hrequest
    rw [serve_of_missing (getWithNext?_eq_none.mpr hrequest)]
    exact RecordResponse.decode_encode_refusal (by decide)

/-- The controller's own record of a card and a record that the host keeps itself go out one after
the other, the second as it has come in. -/
theorem host_reads_out_card :
    let seeded := (Containment.empty.addRoot ⟨11521, 1, 0⟩ .own).1
    let card : Association := ⟨1, Association.physical, ⟨11521, 1, 0⟩, [⟨68, 1, 1⟩]⟩
    let sensor := (⟨0x01000005, 1, .numericSensor, 0, 0⟩ : RecordHeader).encode
    let calls : List Call :=
      [.resync, .request, .receive 0 (.ok (RecordResponse.single 2 (encodeRecord 1 card)).encode),
        .request, .receive 0 (.ok (RecordResponse.single 0 sensor).encode)]
    (∀ call ∈ calls, call.Framed) ∧
      ((start Configuration.standard.settings ⟨[]⟩ (.empty .localDefault .hostDefault)
        seeded).afterAll calls).ReadsOut ⟨9⟩ ⟨0⟩ 0 [encodeRecord 1 card, sensor] := by
  intro seeded card sensor calls
  have hseed : Configuration.standard.seed = .ok (.empty .localDefault .hostDefault, seeded) := rfl
  have hfirst :
      (RecordResponse.single 2 (encodeRecord 1 card)).encode.length ≤ Frame.maxPayload := by
    decide
  have hsecond : (RecordResponse.single 0 sensor).encode.length ≤ Frame.maxPayload := by decide
  have hcalls : ∀ call ∈ calls, call.Framed := by
    simp only [calls, List.forall_mem_cons]
    exact ⟨trivial, trivial, hfirst, trivial, hsecond, by simp⟩
  have hentries : ((start Configuration.standard.settings ⟨[]⟩ (.empty .localDefault .hostDefault)
      seeded).afterAll calls).repository.toList.map (fun entry => entry.2.bytes) =
        [encodeRecord 1 card, sensor] := by
    decide +kernel
  obtain ⟨-, -, hreads, -⟩ := host_reads_out hseed ⟨[]⟩ hcalls ⟨9⟩ ⟨0⟩
  refine ⟨hcalls, (hreads _).mpr ⟨fun hnil => ?_, hentries.symm⟩⟩
  simp [hnil] at hentries

end Exchange
end DescriptorExchange
