import DescriptorExchange.Proofs.Exchange.Calls

/-!
What a cycle has asked for and has still to ask for. Only the steps of the cycle itself change that:
importing a record does no more than note its handle, and forgetting records leaves it alone, even
where the repository fails.
-/
namespace DescriptorExchange

/-- What the steps of a cycle go by. -/
def Cycle.agenda (c : Cycle) :
    CycleId × FetchMode × List RecordHandle × Option RecordHandle × HandleSet :=
  (c.id, c.mode, c.queue, c.inFlight, c.seen)

/-- The handles a cycle has still to process, in the order it will. -/
def Cycle.pending (c : Cycle) : List RecordHandle := c.inFlight.toList ++ c.queue

theorem Cycle.mem_follow {c : Cycle} {next k : RecordHandle} (hk : k ∈ c.queue) :
    k ∈ (c.follow next).queue := by
  unfold follow
  split_ifs
  · exact List.mem_append_left _ hk
  · exact hk

namespace Exchange

variable {x y z : Exchange}

/-- The cycle goes on as it would have. -/
structure Undisturbed (x y : Exchange) : Prop where
  fixed : y.fixed = x.fixed
  agenda : y.cycle.map Cycle.agenda = x.cycle.map Cycle.agenda

namespace Undisturbed

theorem refl (x : Exchange) : Undisturbed x x := ⟨rfl, rfl⟩

theorem trans (hxy : Undisturbed x y) (hyz : Undisturbed y z) : Undisturbed x z :=
  ⟨hyz.fixed.trans hxy.fixed, hyz.agenda.trans hxy.agenda⟩

/-- What the cycle remembers besides may change. -/
theorem mapCycle (h : Undisturbed x y) {f : Cycle → Cycle} (hf : ∀ c, (f c).agenda = c.agenda) :
    Undisturbed x (y.mapCycle f) := by
  refine ⟨h.fixed, ?_⟩
  rw [← h.agenda, Exchange.mapCycle, Option.map_map]
  exact congrArg (Option.map · y.cycle) (funext hf)

theorem touch (h : Undisturbed x y) (handles : List RecordHandle) :
    Undisturbed x (y.touch handles) :=
  h.mapCycle fun _ => rfl

theorem cycle_eq_some {c : Cycle} (h : Undisturbed x y) (hc : x.cycle = some c) :
    ∃ d, y.cycle = some d ∧ d.agenda = c.agenda :=
  Option.map_eq_some_iff.mp (h.agenda.trans (congrArg (Option.map Cycle.agenda) hc))

theorem of_cycle_eq_some {d : Cycle} (h : Undisturbed x y) (hd : y.cycle = some d) :
    ∃ c, x.cycle = some c ∧ c.agenda = d.agenda :=
  Option.map_eq_some_iff.mp (h.agenda.symm.trans (congrArg (Option.map Cycle.agenda) hd))

end Undisturbed

theorem mergeChild_undisturbed (x : Exchange) (node : NodeId) (parent : Entity) (kind : UInt8)
    (child : Entity) : Undisturbed x (x.mergeChild node parent kind child).1 :=
  mergeChild_induction (p := Undisturbed x) (.refl x) (fun _ _ _ => ⟨by simp, by simp⟩)
    (fun _ _ _ _ _ _ hy => hy.trans ⟨rfl, rfl⟩) fun _ k hy => hy.touch [k]

theorem merge_undisturbed (x : Exchange) (hostHandle : RecordHandle) (a : Association) :
    Undisturbed x (x.merge hostHandle a).1 :=
  merge_induction ⟨rfl, rfl⟩ ((Undisturbed.refl x).mapCycle fun _ => rfl)
    (fun node parent y child hy => hy.trans (mergeChild_undisturbed y node parent a.kind child))
    fun _ _ hy => hy.trans ⟨rfl, rfl⟩

/-- The cycle and what no step of it changes are as they were. -/
structure Aside (x y : Exchange) : Prop where
  fixed : y.fixed = x.fixed
  cycle : y.cycle = x.cycle

namespace Aside

theorem refl (x : Exchange) : Aside x x := ⟨rfl, rfl⟩

theorem trans (hxy : Aside x y) (hyz : Aside y z) : Aside x z :=
  ⟨hyz.fixed.trans hxy.fixed, hyz.cycle.trans hxy.cycle⟩

theorem undisturbed (h : Aside x y) : Undisturbed x y :=
  ⟨h.fixed, congrArg (Option.map Cycle.agenda) h.cycle⟩

end Aside

theorem unmerge_aside (x : Exchange) (record : RecordHandle) (child : Entity) :
    Aside x (x.unmerge record child).1 := by
  obtain ⟨tree, repository, notices, h⟩ := x.unmerge_eq record child
  rw [h]
  exact ⟨rfl, rfl⟩

theorem unmergeAll_aside (record : RecordHandle) (children : List Entity) (x : Exchange) :
    Aside x (unmergeAll record children x).1 :=
  unmergeAll_induction (p := Aside x) (fun y child hy => hy.trans (unmerge_aside y record child))
    children (.refl x)

theorem retractImports_aside (imports : List Import) (x : Exchange) :
    Aside x (retractImports imports x).1 :=
  retractImports_induction (p := Aside x)
    (fun _ _ record _ y child hy => hy.trans (unmerge_aside y record child)) (.refl x)

theorem retractMerges_aside (x : Exchange) : Aside x x.retractMerges.1 :=
  Aside.trans (y := { x with imports := ∅ }) ⟨rfl, rfl⟩ (retractImports_aside _ _)

/-- Taking back and removing what a resync begins without leaves its cycle to run. -/
theorem beginResync_undisturbed (x : Exchange) :
    Undisturbed (x.startCycle .chain [RecordHandle.terminator]).1 x.beginResync.1 := by
  have hretracted :=
    (retractMerges_aside (x.startCycle .chain [RecordHandle.terminator]).1).undisturbed
  have hremoved (repository : Repository) : Undisturbed
      (x.startCycle .chain [RecordHandle.terminator]).1.retractMerges.1
      { (x.startCycle .chain [RecordHandle.terminator]).1.retractMerges.1 with
        repository, termini := ∅, phase := .awaitingFirstRecord } := ⟨rfl, rfl⟩
  exact hretracted.trans (((hremoved _).touch _).touch _)

theorem dropStored_aside (x : Exchange) (handle : RecordHandle) :
    Aside x (x.dropStored handle).1 := by
  rcases x.dropStored_cases handle with ⟨-, heq⟩ | ⟨termini, sensor, heq⟩
  · rw [heq]
    exact .refl x
  · rw [heq]
    exact ⟨rfl, rfl⟩

theorem dropImport_aside (x : Exchange) (hostHandle : RecordHandle) :
    Aside x (x.dropImport hostHandle).1 := by
  have hforget : Aside x { x with imports := x.imports.erase hostHandle } := ⟨rfl, rfl⟩
  simp only [dropImport]
  split
  next => exact .refl x
  next handle _ => exact hforget.trans (dropStored_aside _ handle)
  next children record _ =>
    have hundone := hforget.trans (unmergeAll_aside record children _)
    split
    next heq => simpa [heq] using hundone
    next heq => simpa [heq] using hundone

theorem dropImports_aside (handles : List RecordHandle) (x : Exchange) :
    Aside x (dropImports handles x).1 :=
  dropImports_induction (p := Aside x) (fun y handle hy => hy.trans (dropImport_aside y handle))
    handles (.refl x)

/-- Forgetting records leaves the cycle alone. -/
theorem forget_aside (x : Exchange) (handles : List RecordHandle) :
    Aside x (x.forget handles).1 := by
  have hdropped := dropImports_aside handles x
  unfold forget
  split
  next heq => simpa [heq] using hdropped
  next y touched sensors heq =>
    rw [heq] at hdropped
    dsimp only
    split_ifs
    · exact hdropped.trans ⟨rfl, rfl⟩
    · exact hdropped

theorem invalidateTermini_aside (x : Exchange) : Aside x x.invalidateTermini.1 := by
  rw [invalidateTermini_fst]
  exact ⟨rfl, rfl⟩

theorem store_undisturbed (x : Exchange) (hostHandle : RecordHandle) (record : Bytes) :
    Undisturbed x (x.store hostHandle record).1 := by
  unfold store
  split
  · exact .refl x
  next repository handle _ =>
    have hkept : Undisturbed x
        { x with
          repository
          imports := x.imports.insert hostHandle (.stored handle)
          counts.stored := x.counts.stored + 1 } := ⟨rfl, rfl⟩
    exact hkept.touch [handle]

theorem classify_undisturbed (x : Exchange) (header : RecordHeader) (record : Bytes) :
    Undisturbed x (x.classify header record).1 := by
  rcases classify_uniform header record with hskip | ⟨⟨_, a⟩, -, hmerge⟩ | ⟨note, -, hstore⟩
  · rw [hskip]
    exact ⟨rfl, rfl⟩
  · rw [hmerge]
    exact merge_undisturbed x header.handle a
  · rw [hstore]
    exact Undisturbed.trans (y := { x with termini := note x.termini }) ⟨rfl, rfl⟩
      (store_undisturbed _ header.handle record)

/-- The exchange whose cycle has seen the handle of a record, if the record can be read. -/
def noted (x : Exchange) (record : Bytes) : Exchange :=
  match RecordHeader.split record with
  | .error _ => x
  | .ok (header, _) => x.mapCycle fun c => { c with seen := c.seen.insert header.handle }

/-- Importing a record notes its handle and leaves the cycle alone otherwise. -/
theorem importRecord_undisturbed (x : Exchange) (record : Bytes) :
    Undisturbed (x.noted record) (x.importRecord record).1 := by
  rcases x.importRecord_cases record with ⟨e, hsplit, heq⟩ | ⟨header, body, hsplit, hcases⟩
  · simp only [noted, hsplit, heq]
    exact ⟨rfl, rfl⟩
  have hnoted : x.noted record = x.see header.handle := by
    simp only [noted, hsplit]
    rfl
  have hforgot := (forget_aside (x.see header.handle) [header.handle]).undisturbed
  rw [hnoted]
  rcases hcases with ⟨-, heq⟩ | ⟨-, ⟨y, e, hforget, heq⟩ | ⟨y, touched, hforget, heq⟩⟩
  · rw [heq]
    exact classify_undisturbed _ header record
  · rw [heq]
    rwa [hforget] at hforgot
  · rw [heq]
    rw [hforget] at hforgot
    exact (hforgot.touch touched.toList).trans (classify_undisturbed _ header record)

/-- What becomes of the cycle when a record is imported. -/
theorem importRecord_cycle {c : Cycle} (hc : x.cycle = some c) (record : Bytes) :
    ∃ d, (x.importRecord record).1.cycle = some d ∧ d.id = c.id ∧ d.mode = c.mode ∧
      d.queue = c.queue ∧ d.inFlight = c.inFlight ∧ ∀ k, k ∈ d.seen ↔ k ∈ c.seen ∨
        ∃ header body, RecordHeader.split record = .ok (header, body) ∧ header.handle = k := by
  obtain ⟨c', hc', hagenda, hseen⟩ : ∃ c', (x.noted record).cycle = some c' ∧
      (c'.id, c'.mode, c'.queue, c'.inFlight) = (c.id, c.mode, c.queue, c.inFlight) ∧
      ∀ k, k ∈ c'.seen ↔ k ∈ c.seen ∨
        ∃ header body, RecordHeader.split record = .ok (header, body) ∧ header.handle = k := by
    unfold noted
    cases RecordHeader.split record with
    | error e => exact ⟨c, hc, rfl, by simp⟩
    | ok found =>
      refine ⟨{ c with seen := c.seen.insert found.1.handle }, congrArg (Option.map _) hc, rfl, ?_⟩
      intro k
      rw [Std.ExtTreeSet.mem_insert, Std.LawfulEqCmp.compare_eq_iff_eq, or_comm]
      refine or_congr_right ⟨fun hk => ⟨found.1, found.2, rfl, hk⟩, ?_⟩
      rintro ⟨header, body, hsplit, hk⟩
      rwa [Except.ok.inj hsplit]
  obtain ⟨d, hd, hagenda'⟩ := (importRecord_undisturbed x record).cycle_eq_some hc'
  simp only [Cycle.agenda, Prod.mk.injEq] at hagenda hagenda'
  obtain ⟨hid, hmode, hqueue, hflight, hseen'⟩ := hagenda'
  exact ⟨d, hd, hid.trans hagenda.1, hmode.trans hagenda.2.1, hqueue.trans hagenda.2.2.1,
    hflight.trans hagenda.2.2.2, hseen' ▸ hseen⟩

/-- An answer of a cycle over listed records that has more to ask for. -/
theorem receive_of_listed {c : Cycle} {handle next : RecordHandle} {record : Bytes}
    {answer : Except RequestError Bytes} (hc : x.cycle = some c) (hmode : c.mode = .listed)
    (hflight : c.inFlight = some handle) (hqueue : c.queue ≠ [])
    (hread : readAnswer handle answer = .ok (record, next))
    (himport : (x.answered c).importRecord record = (y, .ok ())) :
    x.receive c.id answer = (y, .ok .proceed) := by
  have hanswered : (x.answered c).cycle = some { c with inFlight := none } := rfl
  obtain ⟨d, hd, -, hmode', hqueue', -⟩ := importRecord_cycle hanswered record
  rw [himport] at hd
  have hfollow : d.follow next = d := by simp [Cycle.follow, hmode', hmode]
  have hleft : d.queue.isEmpty = false := by simp [hqueue', hqueue]
  rw [receive_of_import hc hflight hread himport, advance_eq hd]
  simp [hmode', hmode, hfollow, hleft, ← hd]

/-- A fetch that joins the running cycle, one that has nothing to fetch, and one that begins a
cycle. -/
theorem beginFetch_cases (x : Exchange) (handles : List RecordHandle) :
    (∃ c, x.cycle = some c ∧ x.beginFetch handles =
      ({ x with cycle := some { c with queue := c.queue ++ (handles.filter
          (· ≠ RecordHandle.terminator)).filter fun h => h ∉ c.queue ∧ c.inFlight ≠ some h } },
        some c.id)) ∨
    (x.cycle = none ∧ x.beginFetch handles = (x, none)) ∨
    (x.cycle = none ∧ ∃ phase, x.beginFetch handles =
      ({ (x.startCycle .listed (handles.filter (· ≠ RecordHandle.terminator))).1 with phase },
        some x.nextCycle)) := by
  unfold beginFetch
  cases hc : x.cycle with
  | some c => exact .inl ⟨c, rfl, rfl⟩
  | none =>
    right
    cases hw : handles.filter (· ≠ RecordHandle.terminator) with
    | nil => exact .inl ⟨rfl, rfl⟩
    | cons first rest => exact .inr ⟨rfl, _, rfl⟩

/-- Asking for the next record: nothing is asked for, the cycle ends because the host is down, or
the first of the queue is asked for. -/
theorem nextRequest_cases (x : Exchange) :
    (x.nextRequest = (x, .ok none)) ∨
    (x.nextRequest = (x.abort .hostDown, .error .hostDown)) ∨
    ∃ c handle rest phase, x.cycle = some c ∧ c.inFlight = none ∧ c.queue = handle :: rest ∧
      x.nextRequest =
        ({ x with
            cycle := some { c with
              queue := rest, inFlight := some handle, seen := c.seen.insert handle }
            phase },
          .ok (some ⟨c.id, handle⟩)) := by
  unfold nextRequest
  cases hc : x.cycle with
  | none => exact .inl rfl
  | some c =>
    dsimp only
    split_ifs
    · cases hf : c.inFlight with
      | some handle => exact .inl rfl
      | none =>
        cases hq : c.queue with
        | nil => exact .inl rfl
        | cons handle rest => exact .inr (.inr ⟨c, handle, rest, _, rfl, hf, hq, rfl⟩)
    · exact .inr (.inl rfl)

/-- The answer awaited after a request is the one that has been asked for. -/
theorem awaited?_of_request {f : FetchRequest} {cycle : CycleId} {handle : RecordHandle}
    (hrequest : x.nextRequest = (y, .ok (some f))) (hawaited : y.awaited? cycle = some handle) :
    handle = f.handle := by
  rcases x.nextRequest_cases with heq | heq | ⟨c, h, rest, phase, -, -, -, heq⟩
  · simp [heq] at hrequest
  · simp [heq] at hrequest
  · obtain ⟨rfl, hf⟩ := Prod.mk.inj (heq.symm.trans hrequest)
    obtain ⟨d, hd, -, hflight⟩ := awaited?_eq_some.mp hawaited
    obtain rfl := Option.some.inj hd
    rw [← Option.some.inj (Except.ok.inj hf)]
    exact (Option.some.inj hflight).symm

/-- A request and the answer to it. -/
theorem Completes.answered {host : RecordHandle → Except RequestError Bytes} {f : FetchRequest}
    {notice : Option ChangeNotice}
    (hrequest : x.nextRequest.2 = .ok (some f))
    (hreceive : (x.nextRequest.1.receive f.cycle (host f.handle)).2 = .ok .proceed)
    (hrest : Completes host (x.nextRequest.1.receive f.cycle (host f.handle)).1 y notice) :
    Completes host x y notice :=
  .request (Prod.ext rfl hrequest) (.receive
    (fun _ hawaited => by rw [awaited?_of_request (Prod.ext rfl hrequest) hawaited])
    (Prod.ext rfl hreceive) (by simp) hrest)

/-- The last request and the answer to it. -/
theorem Completes.last {host : RecordHandle → Except RequestError Bytes} {f : FetchRequest}
    {notice : Option ChangeNotice}
    (hrequest : x.nextRequest.2 = .ok (some f))
    (hreceive : (x.nextRequest.1.receive f.cycle (host f.handle)).2 = .ok (.complete notice)) :
    Completes host x (x.nextRequest.1.receive f.cycle (host f.handle)).1 notice :=
  .request (Prod.ext rfl hrequest) (.complete
    (fun _ hawaited => by rw [awaited?_of_request (Prod.ext rfl hrequest) hawaited])
    (Prod.ext rfl hreceive))

/-- A cycle completes once it has nothing left to ask for. -/
theorem advance_complete {next : RecordHandle} {notice : Option ChangeNotice}
    (hadvance : x.advance next = (y, .ok (.complete notice))) :
    ∃ c, x.cycle = some c ∧ (c.follow next).queue = [] ∧
      y = { x with cycle := some (c.follow next) }.completed := by
  cases hc : x.cycle with
  | none => simp [advance, hc] at hadvance
  | some c =>
    rw [advance_eq hc] at hadvance
    split_ifs at hadvance with hloop hempty
    · simp at hadvance
    · exact ⟨c, rfl, List.isEmpty_iff.mp hempty, (Prod.mk.inj hadvance).1.symm⟩
    · simp at hadvance

/-- A cycle completes with the record of an answer that it has waited for. -/
theorem receive_complete {id : CycleId} {answer : Except RequestError Bytes}
    {notice : Option ChangeNotice} (h : x.receive id answer = (y, .ok (.complete notice))) :
    ∃ c record next z, x.cycle = some c ∧ c.id = id ∧
      (x.answered c).importRecord record = (z, .ok ()) ∧ z.advance next = (y, .ok (.complete notice)) := by
  rcases receive_cases h with ⟨-, hstale⟩ | ⟨c, handle, hc, hid, -, ⟨e, -, -, he⟩ |
    ⟨record, next, -, ⟨z, e, -, -, he⟩ | ⟨z, himport, hadvance⟩⟩⟩
  · simp at hstale
  · simp at he
  · simp at he
  · exact ⟨c, record, next, z, hc, hid, himport, hadvance⟩

end Exchange
end DescriptorExchange
