import DescriptorExchange.Configuration
import DescriptorExchange.Proofs.Exchange.Agenda
import DescriptorExchange.Proofs.Message.Frame
import DescriptorExchange.Proofs.Message.RecordTransfer
import DescriptorExchange.Proofs.Repository.Lengths

/-!
How long the records of an exchange get. A record comes from an answer that a frame has carried, or
it is an association record, or it has been rewritten in place, so it is no longer than what an
answer in a frame can carry. This holds in every state, also after an error.
-/
namespace DescriptorExchange

open Repository

/-- What a call brings in can have come in a frame. -/
def Exchange.Call.Framed : Exchange.Call → Prop
  | .receive _ (.ok body) => body.length ≤ Frame.maxPayload
  | _ => True

/-- The longest record an answer in a frame can carry. -/
def RecordResponse.maxRecord : Nat := Frame.maxPayload - overhead

namespace Exchange

variable {x y : Exchange} {limit : Nat}

section steps

variable (hlimit : Association.longestRecord ≤ limit)
include hlimit

theorem mergeChild_capped (h : x.repository.Capped limit) (node : NodeId) (parent : Entity)
    (kind : UInt8) (child : Entity) :
    (x.mergeChild node parent kind child).1.repository.Capped limit :=
  mergeChild_induction (p := fun y : Exchange => y.repository.Capped limit) h
    (fun _ _ _ => by rwa [grow_repository])
    (fun _ _ _ _ _ hassociate _ => h.associate hlimit hassociate) fun _ _ hy => hy

theorem merge_capped (h : x.repository.Capped limit) (hostHandle : RecordHandle) (a : Association) :
    (x.merge hostHandle a).1.repository.Capped limit :=
  merge_induction (p := fun y : Exchange => y.repository.Capped limit) h h
    (fun node parent _ child hy => mergeChild_capped hlimit hy node parent a.kind child) fun _ _ hy => hy

theorem stripAll_capped (range : HandleRange) (es : List Entity) {r : Repository}
    (h : r.Capped limit) : (stripAll range es r).1.Capped limit :=
  stripAll_induction (p := fun s => s.Capped limit) (fun _ e hs => hs.strip hlimit e range) es h

theorem unmerge_capped (h : x.repository.Capped limit) (record : RecordHandle) (child : Entity) :
    (x.unmerge record child).1.repository.Capped limit := by
  rcases x.unmerge_cases record child with
    ⟨-, heq⟩ | ⟨id, notices, touched, -, -, -, heq⟩ | ⟨id, -, -, ⟨-, heq⟩ | ⟨entry, -, heq⟩⟩
  · rw [heq]
    exact h
  · rw [heq]
    exact stripAll_capped hlimit _ _ h
  · rw [heq]
    exact h
  · rw [heq]
    split
    next => exact h
    next hremove => exact h.removeChild hlimit hremove

theorem unmergeAll_capped (record : RecordHandle) (children : List Entity) {x : Exchange}
    (h : x.repository.Capped limit) : (unmergeAll record children x).1.repository.Capped limit :=
  unmergeAll_induction (p := fun y : Exchange => y.repository.Capped limit)
    (fun _ child hy => unmerge_capped hlimit hy record child) children h

theorem retractImports_capped (imports : List Import) {x : Exchange}
    (h : x.repository.Capped limit) : (retractImports imports x).1.repository.Capped limit :=
  retractImports_induction (p := fun y : Exchange => y.repository.Capped limit)
    (fun _ _ record _ _ child hy => unmerge_capped hlimit hy record child) h

theorem beginResync_capped (h : x.repository.Capped limit) :
    x.beginResync.1.repository.Capped limit := by
  have hretracted := retractImports_capped hlimit (x.imports.toList.map Prod.snd)
    (x := { (x.startCycle .chain [RecordHandle.terminator]).1 with imports := ∅ }) h
  exact hretracted.removeRange _

omit hlimit in
theorem dropStored_capped (h : x.repository.Capped limit) (handle : RecordHandle) :
    (x.dropStored handle).1.repository.Capped limit := by
  rcases x.dropStored_cases handle with ⟨-, heq⟩ | ⟨termini, sensor, heq⟩
  · rwa [heq]
  · rw [heq]
    exact h.erase handle

theorem dropImport_capped (h : x.repository.Capped limit) (hostHandle : RecordHandle) :
    (x.dropImport hostHandle).1.repository.Capped limit := by
  simp only [dropImport]
  split
  next => exact h
  next handle _ =>
    exact dropStored_capped (x := { x with imports := x.imports.erase hostHandle }) h handle
  next children record _ =>
    have hundone := unmergeAll_capped hlimit record children
      (x := { x with imports := x.imports.erase hostHandle }) h
    split
    next heq => simpa [heq] using hundone
    next heq => simpa [heq] using hundone

theorem dropImports_capped (handles : List RecordHandle) {x : Exchange}
    (h : x.repository.Capped limit) : (dropImports handles x).1.repository.Capped limit :=
  dropImports_induction (p := fun y : Exchange => y.repository.Capped limit)
    (fun _ handle hy => dropImport_capped hlimit hy handle) handles h

theorem forget_capped (h : x.repository.Capped limit) (handles : List RecordHandle) :
    (x.forget handles).1.repository.Capped limit := by
  have hdropped := dropImports_capped hlimit handles h
  unfold forget
  split
  next heq => simpa [heq] using hdropped
  next y touched sensors heq =>
    rw [heq] at hdropped
    dsimp only
    split_ifs <;> exact hdropped

omit hlimit in
theorem store_capped {record : Bytes} (h : x.repository.Capped limit)
    (hrecord : record.length ≤ limit) (hostHandle : RecordHandle) :
    (x.store hostHandle record).1.repository.Capped limit := by
  unfold store
  split
  · exact h
  next hinsert => exact h.insert hrecord hinsert

theorem classify_capped {record : Bytes} (h : x.repository.Capped limit)
    (hrecord : record.length ≤ limit) (header : RecordHeader) :
    (x.classify header record).1.repository.Capped limit := by
  rcases classify_uniform header record with hskip | ⟨⟨_, a⟩, -, hmerge⟩ | ⟨note, -, hstore⟩
  · rw [hskip]
    exact h
  · rw [hmerge]
    exact merge_capped hlimit h header.handle a
  · rw [hstore]
    exact store_capped (x := { x with termini := note x.termini }) h hrecord header.handle

theorem importRecord_capped {record : Bytes} (h : x.repository.Capped limit)
    (hrecord : record.length ≤ limit) : (x.importRecord record).1.repository.Capped limit := by
  rcases x.importRecord_cases record with ⟨e, -, heq⟩ | ⟨header, body, -, hcases⟩
  · rw [heq]
    exact h
  have hforgot := forget_capped hlimit (x := x.see header.handle) h [header.handle]
  rcases hcases with ⟨-, heq⟩ | ⟨-, ⟨y, e, hforget, heq⟩ | ⟨y, touched, hforget, heq⟩⟩
  · rw [heq]
    exact classify_capped hlimit (x := x.see header.handle) h hrecord header
  · rw [heq]
    rwa [hforget] at hforgot
  · rw [heq]
    rw [hforget] at hforgot
    exact classify_capped hlimit (x := y.touch touched.toList) hforgot hrecord header

omit hlimit in
theorem applyFixups_capped (settings : ExchangeSettings) (fixups : List ContainerFixup)
    {r : Repository} (h : r.Capped limit) : (applyFixups settings fixups r).1.Capped limit := by
  refine applyFixups_induction (p := fun s => s.Capped limit) (fun s f _ hs => ?_) h
  rw [applyFixup_def]
  cases f.container? settings s with
  | none => exact hs
  | some container => exact hs.setEffecterContainer _ _

omit hlimit in
theorem advance_capped {next : RecordHandle} {result : Except ExchangeError FetchOutcome}
    (h : x.repository.Capped limit) (hadvance : x.advance next = (y, result)) :
    y.repository.Capped limit := by
  rcases advance_cases hadvance with ⟨-, rfl, -⟩ | ⟨c, -, ⟨rfl, -⟩ | ⟨rfl, -⟩ | ⟨rfl, -⟩⟩
  · exact h
  · exact h
  · exact applyFixups_capped _ _ h
  · exact h

end steps

theorem longestRecord_le : Association.longestRecord ≤ RecordResponse.maxRecord := by decide

/-- An answer that a frame has carried brings no record too long for another. -/
theorem receive_capped {cycle : CycleId} {answer : Except RequestError Bytes}
    (h : x.repository.Capped RecordResponse.maxRecord)
    (hframed : (Call.receive cycle answer).Framed) :
    (x.receive cycle answer).1.repository.Capped RecordResponse.maxRecord := by
  have hreceive : x.receive cycle answer = ((x.receive cycle answer).1, _) := rfl
  rcases receive_cases hreceive with ⟨hy, -⟩ | ⟨c, handle, -, rfl, -, hcases⟩
  · rw [hy]
    exact h
  rcases hcases with ⟨e, -, hy, -⟩ | ⟨record, next, hread, hcases⟩
  · rw [hy]
    exact h
  have hrecord : record.length ≤ RecordResponse.maxRecord := by
    cases answer with
    | error e => simp [readAnswer, Except.mapError, bind, Except.bind] at hread
    | ok body =>
      have hbody : body.length ≤ Frame.maxPayload := hframed
      have hlength := length_of_readAnswer hread
      unfold RecordResponse.maxRecord
      omega
  have himported := importRecord_capped longestRecord_le (x := x.answered c) h hrecord
  rcases hcases with ⟨z, e, himport, hy, -⟩ | ⟨z, himport, hadvance⟩
  · rw [himport] at himported
    rw [hy]
    exact himported
  · rw [himport] at himported
    exact advance_capped himported hadvance

theorem invalidateTermini_capped (h : x.repository.Capped limit) :
    x.invalidateTermini.1.repository.Capped limit :=
  invalidateTermini_induction (p := fun s => s.Capped limit) (fun _ i hr => hr.setLocatorValidity i false) h

theorem after_capped {call : Call} (h : x.repository.Capped RecordResponse.maxRecord)
    (hframed : call.Framed) : (x.after call).repository.Capped RecordResponse.maxRecord := by
  cases call with
  | resync => exact beginResync_capped longestRecord_le h
  | fetch handles =>
    rcases x.beginFetch_cases handles with ⟨c, -, heq⟩ | ⟨-, heq⟩ | ⟨-, phase, heq⟩
    all_goals
      rw [after, heq]
      exact h
  | request =>
    rcases x.nextRequest_cases with heq | heq | ⟨c, handle, rest, phase, -, -, -, heq⟩
    all_goals
      rw [after, heq]
      exact h
  | receive cycle answer => exact receive_capped h hframed
  | forget handles => exact forget_capped longestRecord_le h handles
  | hostDown => exact invalidateTermini_capped h
  | link up => exact h

/-- The records of a controller that has not begun are association records. -/
theorem plant_capped {entries : List TopologyEntry} {r s : Repository} {t u : Containment}
    (h : r.Capped RecordResponse.maxRecord)
    (hplant : Configuration.plant entries (r, t) = .ok (s, u)) :
    s.Capped RecordResponse.maxRecord := by
  induction entries generalizing r t with
  | nil =>
    obtain ⟨rfl, rfl⟩ := Prod.mk.inj (Except.ok.inj hplant)
    exact h
  | cons entry entries ih =>
    unfold Configuration.plant at hplant
    split at hplant
    next => exact ih h hplant
    next parent _ =>
      split at hplant
      next => simp at hplant
      next id _ =>
        split at hplant
        next => simp at hplant
        next tree placement _ =>
          split at hplant
          next => simp at hplant
          next hassociate => exact ih (h.associate longestRecord_le hassociate) hplant

end Exchange
end DescriptorExchange
