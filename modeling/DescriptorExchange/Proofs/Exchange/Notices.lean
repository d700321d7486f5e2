import DescriptorExchange.Configuration
import DescriptorExchange.Proofs.Exchange.Fetching
import DescriptorExchange.Proofs.Message.Frame
import DescriptorExchange.Proofs.Message.RepositoryChange

/-!
Whether a change can be announced to the host. The handles of a notice are cut into change records
of at most 255 entries, an event has room for 255 change records, and the request that carries it
has to fit a frame, which is the narrower limit.
-/
namespace DescriptorExchange.ChangeNotice

variable {α : Type}

/-- Every piece but the last is as long as it may be. -/
theorem length_pieces {size : Nat} (hsize : 0 < size) (bound : Nat) (l : List α)
    (hbound : l.length ≤ bound) :
    (pieces size bound l).length = (l.length + (size - 1)) / size := by
  induction bound generalizing l with
  | zero =>
    rw [List.eq_nil_of_length_eq_zero (Nat.le_zero.mp hbound)]
    exact (Nat.div_eq_of_lt (by simp; omega)).symm
  | succ bound ih =>
    cases l with
    | nil => exact (Nat.div_eq_of_lt (by simp; omega)).symm
    | cons a rest =>
      have hrest : ((a :: rest).drop size).length ≤ bound := by
        simp only [List.length_drop, List.length_cons] at hbound ⊢
        omega
      rw [pieces, List.length_cons, ih _ hrest, List.length_drop]
      have hpos : 0 < (a :: rest).length := Nat.succ_pos _
      by_cases hlong : size ≤ (a :: rest).length
      · rw [← Nat.add_div_right _ hsize]
        congr 1
        omega
      · have hlast : ((a :: rest).length - size + (size - 1)) / size = 0 :=
          Nat.div_eq_of_lt (by omega)
        rw [hlast]
        exact (Nat.div_eq_of_lt_le (by omega) (by omega)).symm

/-- Nothing is lost. -/
theorem flatten_pieces {size : Nat} (hsize : 0 < size) (bound : Nat) (l : List α)
    (hbound : l.length ≤ bound) : (pieces size bound l).flatten = l := by
  induction bound generalizing l with
  | zero =>
    rw [List.eq_nil_of_length_eq_zero (Nat.le_zero.mp hbound)]
    rfl
  | succ bound ih =>
    cases l with
    | nil => rfl
    | cons a rest =>
      have hrest : ((a :: rest).drop size).length ≤ bound := by
        simp only [List.length_drop, List.length_cons] at hbound ⊢
        omega
      rw [pieces, List.flatten_cons, ih _ hrest, List.take_append_drop]

theorem length_of_mem_pieces {size bound : Nat} {l piece : List α}
    (h : piece ∈ pieces size bound l) :
    piece.length ≤ size := by
  induction bound generalizing l with
  | zero => simp [pieces] at h
  | succ bound ih =>
    cases l with
    | nil => simp [pieces] at h
    | cons a rest =>
      rcases List.mem_cons.mp h with rfl | h
      · exact List.length_take_le ..
      · exact ih h

theorem sum_size_recordsOf (operation : ChangeOperation) (handles : List RecordHandle) :
    ((recordsOf operation handles).map ChangeRecord.size).sum =
      2 * (recordsOf operation handles).length + 4 * handles.length := by
  have hsum (parts : List (List RecordHandle)) :
      ((parts.map fun entries => (⟨operation, entries⟩ : ChangeRecord)).map ChangeRecord.size).sum =
        2 * parts.length + 4 * parts.flatten.length := by
    induction parts with
    | nil => rfl
    | cons part parts ih =>
      simp only [List.map_cons, List.sum_cons, ih, ChangeRecord.size, List.length_cons,
        List.flatten_cons, List.length_append]
      omega
  have hflatten := flatten_pieces (by decide : 0 < maxEntries) _ handles (Nat.le_refl _)
  rw [recordsOf, hsum, hflatten, List.length_map]

variable (n : ChangeNotice)

/-- The number of handles a notice lists. -/
def handleCount : Nat := n.added.length + n.modified.length + n.deleted.length

/-- The number of change records it takes to list them. -/
def recordCount : Nat :=
  (n.added.length + 254) / 255 + (n.modified.length + 254) / 255 + (n.deleted.length + 254) / 255

theorem length_toChange : n.toChange.records.length = n.recordCount := by
  have hlength (operation : ChangeOperation) (handles : List RecordHandle) :
      (recordsOf operation handles).length = (handles.length + 254) / 255 := by
    rw [recordsOf, List.length_map]
    exact length_pieces (by decide) _ handles (Nat.le_refl _)
  simp only [toChange, List.length_append, hlength, recordCount]

theorem toChange_entries {r : ChangeRecord} (hr : r ∈ n.toChange.records) :
    r.entries.length ≤ 255 := by
  have hpieces (operation : ChangeOperation) (handles : List RecordHandle)
      (hr : r ∈ recordsOf operation handles) : r.entries.length ≤ 255 := by
    obtain ⟨entries, hentries, rfl⟩ := List.mem_map.mp hr
    exact length_of_mem_pieces hentries
  simp only [toChange, List.mem_append] at hr
  rcases hr with (hr | hr) | hr
  · exact hpieces _ _ hr
  · exact hpieces _ _ hr
  · exact hpieces _ _ hr

/-- The event of a notice, if an event can count its change records. -/
theorem toEvent_size (tid : TerminusId) (h : n.recordCount ≤ 255) :
    ∃ event, n.toEvent tid = .ok event ∧
      event.encode.length = 5 + 2 * n.recordCount + 4 * n.handleCount := by
  obtain ⟨data, hdata, hsize⟩ :=
    RepositoryChange.encode_size (fun _ => n.toChange_entries) (n.length_toChange.trans_le h)
  refine ⟨.make tid .repositoryChange data, by rw [toEvent, hdata]; rfl, ?_⟩
  have hrecords := n.length_toChange
  simp only [toChange, List.length_append] at hrecords
  simp only [toChange, List.map_append, List.sum_append, sum_size_recordsOf] at hsize
  simp only [PlatformEvent.make, PlatformEvent.encode, List.length_append, List.length_cons,
    List.length_nil, hsize, handleCount]
  omega

theorem toEvent_of_many (tid : TerminusId) (h : 255 < n.recordCount) : n.toEvent tid =
    .error (.invalidField "repo_change.num_change_records"
      (UInt32.ofNat (min n.recordCount 0xFFFFFFFF))) := by
  rw [← n.length_toChange] at h ⊢
  rw [toEvent, RepositoryChange.encode_of_many h]
  rfl

/-- The frame of the request that carries an event. -/
def announcing (eid : EndpointId) (iid : InstanceId) (event : PlatformEvent) : Frame :=
  ⟨eid, MessageHeader.forRequest iid .platform PlatformEvent.command, event.encode⟩

/-- A notice is announced: there is an event for it, and the request that carries it can be written.
-/
def Announced (tid : TerminusId) (eid : EndpointId) (iid : InstanceId) : Prop :=
  ∃ event stream, n.toEvent tid = .ok event ∧ (announcing eid iid event).encode = .ok stream

theorem handleCount_le : n.handleCount ≤ 255 * n.recordCount := by
  unfold handleCount recordCount
  omega

/-- Only the last change record of each kind is not full. -/
theorem recordCount_le : 255 * n.recordCount ≤ n.handleCount + 762 := by
  unfold handleCount recordCount
  omega

theorem toEvent_isOk (tid : TerminusId) :
    (∃ event, n.toEvent tid = .ok event) ↔ n.recordCount ≤ 255 := by
  constructor
  · rintro ⟨event, hevent⟩
    by_contra hmany
    simp [n.toEvent_of_many tid (Nat.not_le.mp hmany)] at hevent
  · intro h
    obtain ⟨event, hevent, -⟩ := n.toEvent_size tid h
    exact ⟨event, hevent⟩

theorem announced_iff_fits (tid : TerminusId) (eid : EndpointId) (iid : InstanceId) :
    n.Announced tid eid iid ↔ 5 + 2 * n.recordCount + 4 * n.handleCount ≤ Frame.maxPayload := by
  have hpayload (event : PlatformEvent) :
      (∃ stream, (announcing eid iid event).encode = .ok stream) ↔
        event.encode.length ≤ Frame.maxPayload := Frame.encode_eq_ok_iff
  constructor
  · rintro ⟨event, stream, hevent, hstream⟩
    obtain ⟨event', hevent', hsize⟩ := n.toEvent_size tid ((n.toEvent_isOk tid).mp ⟨event, hevent⟩)
    obtain rfl := Except.ok.inj (hevent.symm.trans hevent')
    exact hsize ▸ (hpayload event).mp ⟨stream, hstream⟩
  · intro hfits
    have hrecords : n.recordCount ≤ 255 := by
      have hle := n.recordCount_le
      unfold Frame.maxPayload Frame.maxBody Frame.minBody MessageHeader.length at hfits
      omega
    obtain ⟨event, hevent, hsize⟩ := n.toEvent_size tid hrecords
    obtain ⟨stream, hstream⟩ := (hpayload event).mpr (hsize ▸ hfits)
    exact ⟨event, stream, hevent, hstream⟩

/-- An event can be made just if the handles take at most 255 change records, and its request can be
written just if they leave room for both in a frame. So up to 16348 handles can always be announced,
and 16350 never. -/
theorem announced_iff (tid : TerminusId) (eid : EndpointId) (iid : InstanceId) :
    ((∃ event, n.toEvent tid = .ok event) ↔ n.recordCount ≤ 255) ∧
      (n.Announced tid eid iid ↔ 5 + 2 * n.recordCount + 4 * n.handleCount ≤ Frame.maxPayload) ∧
      (n.handleCount ≤ 16348 → n.Announced tid eid iid) ∧
      (16350 ≤ n.handleCount → ¬ n.Announced tid eid iid) := by
  have hfits := n.announced_iff_fits tid eid iid
  refine ⟨n.toEvent_isOk tid, hfits, fun hfew => hfits.mpr ?_, fun hmany hannounced => ?_⟩
  · have hrecords := n.recordCount_le
    unfold Frame.maxPayload Frame.maxBody Frame.minBody MessageHeader.length
    omega
  · have hmax := hfits.mp hannounced
    have hrecords := n.handleCount_le
    unfold Frame.maxPayload Frame.maxBody Frame.minBody MessageHeader.length at hmax
    omega

/-- A handle in the default range of the host. -/
def nthHandle (i : Nat) : RecordHandle := 0x01000000 + UInt32.ofNat i

theorem toNat_nthHandle {i : Nat} (hi : i < 0x01000000) : (nthHandle i).toNat = 0x01000000 + i := by
  simp only [nthHandle, UInt32.toNat_add, UInt32.toNat_ofNat']
  simp only [UInt32.reduceToNat]
  omega

/-- The controller fetches so many records of the host, and each one is answered but the last. -/
def fetching (count : Nat) : List Exchange.Call :=
  let handles := (List.range count).map nthHandle
  .fetch (handles ++ [nthHandle count]) :: (handles.flatMap Exchange.serving ++ [.request])

/-- When the last one is answered, the cycle completes with a notice of all of them. -/
theorem fetching_notice (t : Containment) {count : Nat} (hcount : count < 0x01000000) :
    ∃ x y n, (Exchange.start .standard ⟨[]⟩ (.empty .localDefault .hostDefault) t).run?
        (fetching count) = some x ∧
      x.receive 0 (.ok (bareAnswer (nthHandle count))) = (y, .ok (.complete (some n))) ∧
      n.handleCount = count + 1 ∧ n.recordCount = (count + 255) / 255 := by
  have hall : (List.range count).map nthHandle ++ [nthHandle count] =
      (List.range (count + 1)).map nthHandle := by
    simp [List.range_succ]
  have hbound {i : Nat} (hi : i ∈ List.range (count + 1)) : i < 0x01000000 :=
    Nat.lt_of_lt_of_le (List.mem_range.mp hi) hcount
  have hnodup : ((List.range (count + 1)).map nthHandle).Nodup := by
    refine List.Nodup.map_on (fun i hi j hj hij => ?_) List.nodup_range
    have hnat := congrArg UInt32.toNat hij
    rw [toNat_nthHandle (hbound hi), toNat_nthHandle (hbound hj)] at hnat
    omega
  have hrange (h : RecordHandle) (hh : h ∈ (List.range (count + 1)).map nthHandle) :
      HandleRange.hostDefault.contains h = true ∧ h ≠ RecordHandle.terminator := by
    obtain ⟨i, hi, rfl⟩ := List.mem_map.mp hh
    have hnat := toNat_nthHandle (hbound hi)
    have hlt := hbound hi
    rw [HandleRange.contains_iff, UInt32.le_iff_toNat_le, UInt32.le_iff_toNat_le, hnat]
    refine ⟨⟨Nat.le_add_right .., ?_⟩, fun hzero => ?_⟩
    · change 0x01000000 + i ≤ 0x01FFFFFF
      omega
    · simp only [hzero, RecordHandle.terminator, UInt32.reduceToNat] at hnat
      omega
  obtain ⟨x, y, n, hrun, hreceive, hadded, hmodified, hdeleted⟩ :=
    Exchange.fetch_reports_added (rfl : ExchangeSettings.standard.fixups = []) ⟨[]⟩ t .localDefault
      (hall ▸ hnodup) (hall ▸ hrange)
  rw [List.length_map, List.length_range] at hadded
  refine ⟨x, y, n, hrun, hreceive, by simp [handleCount, hadded, hmodified, hdeleted], ?_⟩
  simp only [recordCount, hadded, hmodified, hdeleted, List.length_nil]
  omega

/-- A cycle that has fetched 16350 records reports them in a notice for which there is an event but
no frame. For one of 65026 there is not even an event. -/
theorem notices_not_announced :
    let seeded := (Containment.empty.addRoot ⟨11521, 1, 0⟩ .own).1
    let x₀ := Exchange.start .standard ⟨[]⟩ (.empty .localDefault .hostDefault) seeded
    Configuration.standard.seed = .ok (.empty .localDefault .hostDefault, seeded) ∧
    (∃ x y n, x₀.run? (fetching 16349) = some x ∧
      x.receive 0 (.ok (bareAnswer (nthHandle 16349))) = (y, .ok (.complete (some n))) ∧
      (∃ event, n.toEvent ⟨1⟩ = .ok event) ∧ ∀ eid iid, ¬ n.Announced ⟨1⟩ eid iid) ∧
    ∃ x y n, x₀.run? (fetching 65025) = some x ∧
      x.receive 0 (.ok (bareAnswer (nthHandle 65025))) = (y, .ok (.complete (some n))) ∧
      n.toEvent ⟨1⟩ = .error (.invalidField "repo_change.num_change_records" 256) := by
  intro seeded x₀
  refine ⟨rfl, ?_, ?_⟩
  · obtain ⟨x, y, n, hrun, hreceive, hhandles, hrecords⟩ :=
      fetching_notice seeded (by decide : 16349 < 0x01000000)
    refine ⟨x, y, n, hrun, hreceive, (n.toEvent_isOk ⟨1⟩).mpr (by omega), ?_⟩
    intro eid iid hannounced
    have hfits := (n.announced_iff_fits ⟨1⟩ eid iid).mp hannounced
    rw [hhandles, hrecords] at hfits
    exact absurd hfits (by decide)
  · obtain ⟨x, y, n, hrun, hreceive, -, hrecords⟩ :=
      fetching_notice seeded (by decide : 65025 < 0x01000000)
    refine ⟨x, y, n, hrun, hreceive, ?_⟩
    rw [n.toEvent_of_many ⟨1⟩ (by omega), hrecords]
    rfl

end DescriptorExchange.ChangeNotice
