import DescriptorExchange.Proofs.Exchange.Agenda
import DescriptorExchange.Proofs.Exchange.Difference
import DescriptorExchange.Proofs.Message.RecordTransfer
import DescriptorExchange.Proofs.Record.Header

/-!
Fetching records of no special kind. However many are listed, each is stored under the handle it has
at the host, and the cycle completes with a notice that lists all of them.
-/
namespace DescriptorExchange

open Repository

/-- The header of a record that has no body and is not of a kind that is looked into. -/
def bareHeader (h : RecordHandle) : RecordHeader := ⟨h, 1, .numericSensor, 0, 0⟩

def bareRecord (h : RecordHandle) : Bytes := (bareHeader h).encode

/-- An answer with a bare record. -/
def bareAnswer (h : RecordHandle) : Bytes :=
  (RecordResponse.single RecordHandle.terminator (bareRecord h)).encode

theorem split_bareRecord (h : RecordHandle) :
    RecordHeader.split (bareRecord h) = .ok (bareHeader h, []) :=
  RecordHeader.split_eq_ok.mpr ⟨rfl, [], by simp [bareRecord], rfl⟩

theorem Exchange.readAnswer_bare (asked h : RecordHandle) :
    readAnswer asked (.ok (bareAnswer h)) = .ok (bareRecord h, RecordHandle.terminator) :=
  readAnswer_single (by simp [bareRecord, RecordHeader.length])

/-- A record of the host whose handle is free and lies in its range keeps it. -/
theorem Repository.insert_bareRecord {r : Repository} {h : RecordHandle}
    (hrange : r.hostRange.contains h = true) (hfree : r.get? h = none) :
    r.insert .host (bareRecord h) = .ok (r.put h ⟨.numericSensor, .host, bareRecord h⟩, h) := by
  refine insert_eq_ok.mpr ⟨bareHeader h, [], bareRecord h, split_bareRecord h, ?_, ?_, rfl⟩
  · have hnot : h ∉ r.records := by simp [mem_records, hfree]
    exact if_pos ⟨rfl, hrange, hnot⟩
  · have hset := setRecordHandle_encode h (bareHeader h) []
    simpa [bareRecord, bareHeader] using hset

namespace Exchange

variable {x y : Exchange} {h : RecordHandle}

theorem importRecord_bare (hrange : x.repository.hostRange.contains h = true)
    (hfree : x.repository.get? h = none) (hnew : h ∉ x.imports) :
    ∃ y, x.importRecord (bareRecord h) = (y, .ok ()) ∧
      y.repository = x.repository.put h ⟨.numericSensor, .host, bareRecord h⟩ ∧
      y.imports = x.imports.insert h (.stored h) ∧ y.fixed = x.fixed := by
  have hstore : ∃ y, (x.see h).store h (bareRecord h) = (y, .ok ()) ∧
      y.repository = x.repository.put h ⟨.numericSensor, .host, bareRecord h⟩ ∧
      y.imports = x.imports.insert h (.stored h) ∧ y.fixed = x.fixed := by
    have hinsert : (x.see h).repository.insert .host (bareRecord h) = _ :=
      insert_bareRecord hrange hfree
    simp only [store, hinsert]
    exact ⟨_, rfl, rfl, rfl, rfl⟩
  have hclassify : (x.see (bareHeader h).handle).classify (bareHeader h) (bareRecord h) =
      (x.see h).store h (bareRecord h) := rfl
  rcases x.importRecord_cases (bareRecord h) with ⟨e, hsplit, -⟩ | ⟨header, body, hsplit, hcases⟩
  · simp [split_bareRecord] at hsplit
  obtain ⟨rfl, rfl⟩ := Prod.mk.inj (Except.ok.inj ((split_bareRecord h).symm.trans hsplit))
  rcases hcases with ⟨-, heq⟩ | ⟨hknown, -⟩
  · rw [heq, hclassify]
    exact hstore
  · exact absurd hknown hnew

/-- A cycle over listed records under way: some have been fetched and are stored under their own
handles, one may be awaited, and the others have still to be asked for. -/
structure Fetches (x : Exchange) (range : HandleRange) (awaited : Option RecordHandle)
    (done rest : List RecordHandle) : Prop where
  hostUp : x.hostUp = true
  fixups : x.settings.fixups = []
  hostRange : x.repository.hostRange = range
  running : ∃ c, x.cycle = some c ∧ c.id = 0 ∧ c.mode = .listed ∧ c.inFlight = awaited ∧
    c.queue = rest
  records : ∀ k, (x.repository.get? k).isSome ↔ k ∈ done
  imports : ∀ k, k ∈ x.imports ↔ k ∈ done

/-- A request for the next record and the answer to it. -/
def serving (h : RecordHandle) : List Call := [.request, .receive 0 (.ok (bareAnswer h))]

namespace Fetches

variable {range : HandleRange} {done rest : List RecordHandle}

theorem request (hx : x.Fetches range none done (h :: rest)) :
    x.nextRequest.1.Fetches range (some h) done rest := by
  obtain ⟨c, hc, hid, hmode, hflight, hqueue⟩ := hx.running
  obtain ⟨phase, hrequest⟩ := nextRequest_of_queue hx.hostUp hc hflight hqueue
  rw [hrequest]
  exact ⟨hx.hostUp, hx.fixups, hx.hostRange, ⟨_, rfl, hid, hmode, rfl, rfl⟩, hx.records, hx.imports⟩

theorem imported (hx : x.Fetches range (some h) done rest) (hrange : range.contains h = true)
    (hnew : h ∉ done) : ∃ c z, x.cycle = some c ∧ c.id = 0 ∧ c.mode = .listed ∧
      c.inFlight = some h ∧ c.queue = rest ∧
      (x.answered c).importRecord (bareRecord h) = (z, .ok ()) ∧
      z.Fetches range none (h :: done) rest := by
  obtain ⟨c, hc, hid, hmode, hflight, hqueue⟩ := hx.running
  have hfree : (x.answered c).repository.get? h = none := by
    rw [← Option.not_isSome_iff_eq_none]
    exact fun hsome => hnew ((hx.records h).mp hsome)
  obtain ⟨z, himport, hz, himports, hfixed⟩ := importRecord_bare (x := x.answered c)
    (hx.hostRange.symm ▸ hrange) hfree fun hmem => hnew ((hx.imports h).mp hmem)
  obtain ⟨d, hd, hid', hmode', hqueue', hflight', -⟩ :=
    importRecord_cycle (x := x.answered c) rfl (bareRecord h)
  rw [himport] at hd
  refine ⟨c, z, hc, hid, hmode, hflight, hqueue, himport, ?_, ?_, ?_, ?_, fun k => ?_, fun k => ?_⟩
  · exact (congrArg (fun f => f.2.2) hfixed).trans hx.hostUp
  · exact (congrArg (fun f => f.2.1.fixups) hfixed).trans hx.fixups
  · rw [hz]
    exact hx.hostRange
  · exact ⟨d, hd, hid'.trans hid, hmode'.trans hmode, hflight', hqueue'.trans hqueue⟩
  · rw [hz, get?_put, List.mem_cons, ← hx.records]
    split_ifs with hk
    · simp [hk]
    · simp only [hk, false_or]
      rfl
  · rw [himports, Std.ExtTreeMap.mem_insert, Std.LawfulEqCmp.compare_eq_iff_eq, List.mem_cons,
      ← hx.imports, eq_comm]
    rfl

/-- The answer that is awaited, while others have still to be asked for. -/
theorem receive (hx : x.Fetches range (some h) done rest) (hrange : range.contains h = true)
    (hnew : h ∉ done) (hrest : rest ≠ []) :
    ∃ y, x.receive 0 (.ok (bareAnswer h)) = (y, .ok .proceed) ∧
      y.Fetches range none (h :: done) rest := by
  obtain ⟨c, z, hc, hid, hmode, hflight, hqueue, himport, hz⟩ := hx.imported hrange hnew
  have hreceive := receive_of_listed hc hmode hflight (hqueue ▸ hrest) (readAnswer_bare h h) himport
  exact ⟨z, hid ▸ hreceive, hz⟩

/-- All records but the last. -/
theorem run {handles : List RecordHandle} {last : RecordHandle}
    (hx : x.Fetches range none done (handles ++ [last])) (hnodup : handles.Nodup)
    (hnew : ∀ h ∈ handles, h ∉ done) (hrange : ∀ h ∈ handles, range.contains h = true) :
    ∃ y, x.run? (handles.flatMap serving ++ [.request]) = some y ∧
      y.Fetches range (some last) (handles.reverse ++ done) [] := by
  induction handles generalizing x done with
  | nil => exact ⟨_, rfl, hx.request⟩
  | cons h rest ih =>
    obtain ⟨hout, hnodup⟩ := List.nodup_cons.mp hnodup
    obtain ⟨z, hreceive, hz⟩ := hx.request.receive (hrange h List.mem_cons_self)
      (hnew h List.mem_cons_self) (by simp)
    obtain ⟨y, hrun, hy⟩ := ih hz hnodup
      (fun k hk => by
        rw [List.mem_cons, not_or]
        exact ⟨fun heq => hout (heq ▸ hk), hnew k (List.mem_cons_of_mem h hk)⟩)
      fun k hk => hrange k (List.mem_cons_of_mem h hk)
    have hserved : x.run? (serving h) = some z := by
      simp only [serving, run?, call?, Option.bind_some, hreceive]
    refine ⟨y, ?_, by simpa using hy⟩
    rw [List.flatMap_cons, List.append_assoc]
    exact run?_append hserved hrun

/-- The last answer completes the cycle, and the notice lists what has been stored. -/
theorem completes {before : Repository} (hx : x.Fetches range (some h) done [])
    (htracks : x.Tracks 0 before) (hbefore : ∀ k, before.get? k = none)
    (hrange : range.contains h = true) (hnew : h ∉ done) :
    ∃ y n, x.receive 0 (.ok (bareAnswer h)) = (y, .ok (.complete (some n))) ∧
      (∀ k, k ∈ n.added ↔ k ∈ h :: done) ∧ n.added.Pairwise (· < ·) ∧
      n.modified = [] ∧ n.deleted = [] := by
  obtain ⟨c, z, hc, hid, hmode, hflight, hqueue, himport, hz⟩ := hx.imported hrange hnew
  obtain ⟨d, hd, hid', hmode', -, hqueue'⟩ := hz.running
  have hfollow : d.follow RecordHandle.terminator = d := by simp [Cycle.follow]
  have hreceive : x.receive 0 (.ok (bareAnswer h)) =
      (z.completed, .ok (.complete (z.completion? d))) := by
    rw [← hid, receive_of_import hc hflight (readAnswer_bare h h) himport, advance_eq hd]
    simp [hfollow, hqueue', ← hd]
  obtain ⟨rfl, hnoted⟩ := ((answered_tracks hc htracks).of_accounts
    (importRecord_accounts himport)).noted d hd hid'
  have hexact := completion_exact hnoted
  have hkept : z.completed.repository = z.repository := by
    simp [completed, hz.fixups, applyFixups, publishSensors]
  have hnone (k : RecordHandle) : d.before.bytes? k = none := by
    rw [bytes?, hbefore, Option.map_none]
  have hsome (k : RecordHandle) : z.completed.repository.bytes? k ≠ none ↔ k ∈ h :: done := by
    rw [hkept, ← hz.records, bytes?, Option.isSome_iff_ne_none, ne_eq, Option.map_eq_none_iff]
  obtain ⟨n, hn⟩ : ∃ n, z.completion? d = some n := by
    refine Option.ne_none_iff_exists'.mp fun hnotice => ?_
    have hsame := hexact.none_iff.mp hnotice h
    rw [hnone] at hsame
    exact (hsome h).mpr List.mem_cons_self hsame.symm
  refine ⟨z.completed, n, hn ▸ hreceive, fun k => ?_, (hexact.ascending n hn).1, ?_, ?_⟩
  · rw [hexact.added n hn, hsome]
    exact and_iff_right (hnone k)
  · refine List.eq_nil_iff_forall_not_mem.mpr fun k hk => ?_
    exact ((hexact.modified n hn k).mp hk).1 (hnone k)
  · refine List.eq_nil_iff_forall_not_mem.mpr fun k hk => ?_
    exact ((hexact.deleted n hn k).mp hk).1 (hnone k)

end Fetches

/-- A fetch of records that the host keeps under different handles of its range completes, and
reports each of them as added. -/
theorem fetch_reports_added {settings : ExchangeSettings} (hfixups : settings.fixups = [])
    (names : EntityNames) (t : Containment) (own : HandleRange) {range : HandleRange}
    {handles : List RecordHandle} {last : RecordHandle} (hnodup : (handles ++ [last]).Nodup)
    (hrange : ∀ h ∈ handles ++ [last], range.contains h = true ∧ h ≠ RecordHandle.terminator) :
    ∃ x y n, (start settings names (.empty own range) t).run?
        (.fetch (handles ++ [last]) :: (handles.flatMap serving ++ [.request])) = some x ∧
      x.receive 0 (.ok (bareAnswer last)) = (y, .ok (.complete (some n))) ∧
      n.added.length = handles.length + 1 ∧ n.modified = [] ∧ n.deleted = [] := by
  let x₀ := start settings names (.empty own range) t
  have hbefore (k : RecordHandle) : x₀.repository.get? k = none := by
    simp [x₀, start, Repository.get?, Repository.empty]
  have hwanted : (handles ++ [last]).filter (· ≠ RecordHandle.terminator) = handles ++ [last] :=
    List.filter_eq_self.mpr fun h hh => decide_eq_true (hrange h hh).2
  obtain ⟨phase, hbegin⟩ : ∃ phase, x₀.beginFetch (handles ++ [last]) =
      ({ (x₀.startCycle .listed (handles ++ [last])).1 with phase }, some 0) := by
    obtain ⟨first, rest, hcons⟩ : ∃ first rest, handles ++ [last] = first :: rest :=
      List.exists_cons_of_ne_nil (by simp)
    rw [hcons] at hwanted ⊢
    simp only [beginFetch, hwanted]
    exact ⟨_, rfl⟩
  let x₁ : Exchange := { (x₀.startCycle .listed (handles ++ [last])).1 with phase }
  have hx₁ : x₁.Fetches range none [] (handles ++ [last]) := by
    refine ⟨rfl, hfixups, rfl, ⟨_, rfl, rfl, rfl, rfl, rfl⟩, fun k => ?_, fun k => ?_⟩
    · change (x₀.repository.get? k).isSome ↔ _
      simp [hbefore]
    · change k ∈ (∅ : Std.ExtTreeMap RecordHandle Import) ↔ _
      simp
  have htracks : x₁.Tracks 0 x₀.repository := Begins.tracks (.fetch rfl hbegin)
  obtain ⟨hhandles, hout⟩ : handles.Nodup ∧ last ∉ handles := by
    rw [List.nodup_append] at hnodup
    exact ⟨hnodup.1, fun hmem => hnodup.2.2 last hmem last (by simp) rfl⟩
  obtain ⟨x, hrun, hx⟩ := hx₁.run hhandles (by simp) fun h hh =>
    (hrange h (List.mem_append_left _ hh)).1
  have hcalls : ∀ call ∈ handles.flatMap serving ++ [.request], call.runsCycles = true := by
    intro call hcall
    rcases List.mem_append.mp hcall with hcall | hcall
    · obtain ⟨h, -, hcall⟩ := List.mem_flatMap.mp hcall
      rcases List.mem_pair.mp hcall with rfl | rfl <;> rfl
    · rw [List.mem_singleton.mp hcall]
      rfl
  have hx₂ : x.Tracks 0 x₀.repository :=
    run?_induction (fun _ _ _ hp hc h => call?_tracks hc hp h) hcalls htracks hrun
  obtain ⟨y, n, hreceive, hadded, hsorted, hmodified, hdeleted⟩ := hx.completes hx₂ hbefore
    (hrange last (by simp)).1 (by simpa using hout)
  refine ⟨x, y, n, ?_, hreceive, ?_, hmodified, hdeleted⟩
  · change (x₀.call? (.fetch (handles ++ [last]))).bind _ = _
    rw [call?, hbegin]
    exact hrun
  · have hperm : n.added.Perm (last :: (handles.reverse ++ [])) := by
      refine (List.perm_ext_iff_of_nodup ?_ ?_).mpr hadded
      · exact hsorted.imp fun hlt heq => by simp [heq] at hlt
      · simpa using ⟨hout, hhandles⟩
    simpa using hperm.length_eq

end Exchange
end DescriptorExchange
