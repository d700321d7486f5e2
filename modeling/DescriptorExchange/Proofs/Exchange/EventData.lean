import DescriptorExchange.Proofs.Exchange.Notices
import DescriptorExchange.Proofs.Message.RoundTrip
import Mathlib.Algebra.Order.Floor.Div

/-!
What the host reads in the event that announces a change. If the change records can be counted at all, they
are read back as they were made: first what was added, then what was modified, then what was deleted, and of
each kind all handles in order.
-/
namespace DescriptorExchange.ChangeNotice

variable {α : Type}

/-- A piece is made only while something is left to put into it. -/
theorem ne_nil_of_mem_pieces {size bound : Nat} (hsize : 0 < size) {l piece : List α}
    (h : piece ∈ pieces size bound l) : piece ≠ [] := by
  induction bound generalizing l with
  | zero => simp [pieces] at h
  | succ bound ih =>
    cases l with
    | nil => simp [pieces] at h
    | cons a rest =>
      rcases List.mem_cons.mp h with rfl | h
      · simp [Nat.ne_of_gt hsize]
      · exact ih h

/-- The change records tell of these handles, in order, under one operation. -/
structure Tells (operation : ChangeOperation) (handles : List RecordHandle) (records : List ChangeRecord) :
    Prop where
  operation : ∀ r ∈ records, r.operation = operation
  nonempty : ∀ r ∈ records, r.entries ≠ []
  length : ∀ r ∈ records, r.entries.length ≤ 255
  entries : records.flatMap ChangeRecord.entries = handles

theorem tells_recordsOf (operation : ChangeOperation) (handles : List RecordHandle) :
    Tells operation handles (recordsOf operation handles) := by
  have hmem {r : ChangeRecord} (hr : r ∈ recordsOf operation handles) :
      r.operation = operation ∧ r.entries ∈ pieces maxEntries handles.length handles := by
    obtain ⟨entries, hentries, rfl⟩ := List.mem_map.mp hr
    exact ⟨rfl, hentries⟩
  refine ⟨fun r hr => (hmem hr).1, fun r hr => ?_, fun r hr => ?_, ?_⟩
  · exact ne_nil_of_mem_pieces (by decide) (hmem hr).2
  · exact length_of_mem_pieces (hmem hr).2
  · rw [recordsOf, List.flatMap_map, List.flatMap_id']
    exact flatten_pieces (by decide) _ handles (Nat.le_refl _)

variable (n : ChangeNotice)

theorem recordCount_eq : n.recordCount =
    n.added.length ⌈/⌉ 255 + n.modified.length ⌈/⌉ 255 + n.deleted.length ⌈/⌉ 255 := by
  rfl

/-- The event carries data that is read back as the change. -/
theorem decode_toEvent {tid : TerminusId} {event : PlatformEvent} (h : n.toEvent tid = .ok event) :
    event = .make tid .repositoryChange event.data ∧ RepositoryChange.decode event.data = .ok n.toChange := by
  have hcount : n.recordCount ≤ 255 := (n.toEvent_isOk tid).mp ⟨event, h⟩
  obtain ⟨data, hdata, hdecode⟩ :=
    RepositoryChange.decode_encode (fun _ => n.toChange_entries) (n.length_toChange.trans_le hcount)
  rw [toEvent, hdata] at h
  obtain rfl := Except.ok.inj h
  exact ⟨rfl, hdecode⟩

/-- There is an event for a notice just if its handles take at most 255 change records, each with up to 255
handles of one kind. What is read from it then are such records, none of them empty, which tell of the added,
the modified and the deleted handles, one kind after the other. -/
theorem event_tells_all (tid : TerminusId) :
    ((∃ event, n.toEvent tid = .ok event) ↔
      n.added.length ⌈/⌉ 255 + n.modified.length ⌈/⌉ 255 + n.deleted.length ⌈/⌉ 255 ≤ 255) ∧
    ∀ event, n.toEvent tid = .ok event →
      event = .make tid .repositoryChange event.data ∧ ∃ added modified deleted,
        RepositoryChange.decode event.data = .ok ⟨.recordHandles, added ++ modified ++ deleted⟩ ∧
          Tells .added n.added added ∧ Tells .modified n.modified modified ∧
            Tells .deleted n.deleted deleted := by
  refine ⟨n.recordCount_eq ▸ n.toEvent_isOk tid, fun event h => ?_⟩
  obtain ⟨hevent, hdecode⟩ := n.decode_toEvent h
  exact ⟨hevent, _, _, _, hdecode, tells_recordsOf _ _, tells_recordsOf _ _, tells_recordsOf _ _⟩

/-- A full change record and one with a single handle for what was added, none for what was modified. -/
theorem event_tells_all_uneven :
    let n : ChangeNotice := ⟨(List.range 256).map nthHandle, [], [7, 3]⟩
    ∃ event, n.toEvent ⟨1⟩ = .ok event ∧ ∃ added deleted,
      RepositoryChange.decode event.data = .ok ⟨.recordHandles, added ++ deleted⟩ ∧
        Tells .added n.added added ∧ Tells .deleted [7, 3] deleted := by
  intro n
  obtain ⟨event, hevent⟩ := (n.event_tells_all ⟨1⟩).1.mpr (by simp [n, Nat.ceilDiv_eq_add_pred_div])
  obtain ⟨-, added, modified, deleted, hdecode, hadded, hmodified, hdeleted⟩ :=
    (n.event_tells_all ⟨1⟩).2 event hevent
  have hnone : modified = [] := by
    by_contra hne
    obtain ⟨r, hr⟩ := List.exists_mem_of_ne_nil modified hne
    exact hmodified.nonempty r hr (List.flatMap_eq_nil_iff.mp hmodified.entries r hr)
  rw [hnone, List.append_nil] at hdecode
  exact ⟨event, hevent, added, deleted, hdecode, hadded, hdeleted⟩

end DescriptorExchange.ChangeNotice
