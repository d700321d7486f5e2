import DescriptorExchange.Proofs.Exchange.Accounts

/-!
The result of a completed cycle. It is the exact difference between the repository as it was when
the cycle began, before anything was taken back, and as it is at the end, although only the
records noted in the cycle are ever compared.
-/
namespace DescriptorExchange

/-- The bytes under a handle. -/
def Repository.bytes? (r : Repository) (h : RecordHandle) : Option Bytes :=
  (r.get? h).map Record.bytes

/-- The result of a cycle says exactly how two repositories differ: every handle is listed for what
happened to it, in ascending order, and there is no notice when nothing happened. -/
structure ChangeNotice.Exact (before after : Repository) (notice : Option ChangeNotice) : Prop where
  added : ∀ n ∈ notice, ∀ h, h ∈ n.added ↔ before.bytes? h = none ∧ after.bytes? h ≠ none
  modified : ∀ n ∈ notice, ∀ h, h ∈ n.modified ↔
    before.bytes? h ≠ none ∧ after.bytes? h ≠ none ∧ before.bytes? h ≠ after.bytes? h
  deleted : ∀ n ∈ notice, ∀ h, h ∈ n.deleted ↔ before.bytes? h ≠ none ∧ after.bytes? h = none
  ascending : ∀ n ∈ notice,
    n.added.Pairwise (· < ·) ∧ n.modified.Pairwise (· < ·) ∧ n.deleted.Pairwise (· < ·)
  none_iff : notice = none ↔ ∀ h, before.bytes? h = after.bytes? h

section difference

variable {before after : Repository} {h : RecordHandle}

theorem Repository.difference_eq_same :
    before.difference after h = .same ↔ before.bytes? h = after.bytes? h := by
  simp only [difference, bytes?]
  cases before.get? h <;> cases after.get? h <;> simp

theorem Repository.difference_eq_added :
    before.difference after h = .added ↔ before.bytes? h = none ∧ after.bytes? h ≠ none := by
  simp only [difference, bytes?]
  cases before.get? h <;> cases after.get? h <;> simp
  grind

theorem Repository.difference_eq_modified : before.difference after h = .modified ↔
    before.bytes? h ≠ none ∧ after.bytes? h ≠ none ∧ before.bytes? h ≠ after.bytes? h := by
  simp only [difference, bytes?]
  cases before.get? h <;> cases after.get? h <;> simp

theorem Repository.difference_eq_deleted :
    before.difference after h = .deleted ↔ before.bytes? h ≠ none ∧ after.bytes? h = none := by
  simp only [difference, bytes?]
  cases before.get? h <;> cases after.get? h <;> simp
  grind

end difference

namespace ChangeNotice

variable {before after : Repository} {handles : List RecordHandle}

/-- Sorting the noted handles by how they differ finds every handle that does. -/
theorem mem_filter_difference (hnoted : ∀ h, h ∉ handles → after.get? h = before.get? h)
    {d : Difference} (hd : d ≠ .same) {h : RecordHandle} :
    h ∈ handles.filter (fun h => before.difference after h = d) ↔
      before.difference after h = d := by
  simp only [List.mem_filter, decide_eq_true_eq, and_iff_right_iff_imp]
  intro hdiff
  by_contra hout
  have hsame : before.difference after h = .same := by
    rw [Repository.difference_eq_same, Repository.bytes?, Repository.bytes?, hnoted h hout]
  exact hd (hdiff ▸ hsame)

theorem isEmpty_between (hnoted : ∀ h, h ∉ handles → after.get? h = before.get? h) :
    (between before after handles).isEmpty = true ↔ ∀ h, before.bytes? h = after.bytes? h := by
  simp only [isEmpty, between, Bool.and_eq_true, List.isEmpty_iff, List.eq_nil_iff_forall_not_mem]
  constructor
  · rintro ⟨⟨hadded, hmodified⟩, hdeleted⟩ h
    have ha := mt (mem_filter_difference hnoted (d := .added) (by simp)).mpr (hadded h)
    have hm := mt (mem_filter_difference hnoted (d := .modified) (by simp)).mpr (hmodified h)
    have hd := mt (mem_filter_difference hnoted (d := .deleted) (by simp)).mpr (hdeleted h)
    rw [← Repository.difference_eq_same]
    cases hdiff : before.difference after h <;> simp_all
  · intro heq
    have hsame (h : RecordHandle) := Repository.difference_eq_same.mpr (heq h)
    simp [hsame]

/-- Comparing the noted handles is enough when nothing else has changed. -/
theorem exact_between (hsorted : handles.Pairwise (· < ·))
    (hnoted : ∀ h, h ∉ handles → after.get? h = before.get? h) :
    Exact before after
      (if (between before after handles).isEmpty then none
        else some (between before after handles)) := by
  have hsome (n : ChangeNotice) (hn : n ∈ (if (between before after handles).isEmpty then none
      else some (between before after handles) : Option ChangeNotice)) :
      n = between before after handles := by
    split_ifs at hn <;> simp_all
  refine ⟨?_, ?_, ?_, ?_, ?_⟩
  · intro n hn h
    obtain rfl := hsome n hn
    exact (mem_filter_difference hnoted (by simp)).trans Repository.difference_eq_added
  · intro n hn h
    obtain rfl := hsome n hn
    exact (mem_filter_difference hnoted (by simp)).trans Repository.difference_eq_modified
  · intro n hn h
    obtain rfl := hsome n hn
    exact (mem_filter_difference hnoted (by simp)).trans Repository.difference_eq_deleted
  · intro n hn
    obtain rfl := hsome n hn
    exact ⟨hsorted.filter _, hsorted.filter _, hsorted.filter _⟩
  · rw [← isEmpty_between hnoted]
    split_ifs <;> simp_all

end ChangeNotice

namespace Exchange

/-- The start of a cycle: over the whole repository, or over listed records while no cycle runs. -/
inductive Begins (x : Exchange) : Exchange → CycleId → Prop
  | resync {y : Exchange} {id : CycleId} (h : x.beginResync = (y, id)) : Begins x y id
  | fetch {y : Exchange} {id : CycleId} {handles : List RecordHandle} (hidle : x.cycle = none)
      (h : x.beginFetch handles = (y, some id)) : Begins x y id

/-- While the cycle with this id runs, all that has changed since a repository is noted in it. -/
structure Tracks (x : Exchange) (id : CycleId) (before : Repository) : Prop where
  begun : id < x.nextCycle
  noted : ∀ c, x.cycle = some c → c.id = id →
    c.before = before ∧ ∀ h, h ∉ c.touched → x.repository.get? h = before.get? h

variable {x y : Exchange} {id : CycleId} {before : Repository}

theorem Tracks.of_accounts (hx : x.Tracks id before) (h : Accounts x y []) :
    y.Tracks id before where
  begun := by
    have hnext : y.nextCycle = x.nextCycle := congrArg Prod.fst h.fixed
    rw [hnext]
    exact hx.begun
  noted d hd hid := by
    obtain ⟨c, hc, hid', hbefore, htouched, hget⟩ := h.cycle d hd
    obtain ⟨hcb, hcn⟩ := hx.noted c hc (hid' ▸ hid)
    refine ⟨hbefore.trans hcb, fun h hh => ?_⟩
    exact (hget h (List.not_mem_nil) hh).trans (hcn h fun hc => hh (htouched h hc))

theorem Tracks.of_idle (hx : x.Tracks id before) (hnext : y.nextCycle = x.nextCycle)
    (hidle : y.cycle = none) : y.Tracks id before where
  begun := hnext ▸ hx.begun
  noted c hc := by simp [hidle] at hc

/-- A cycle that begins later has another id. -/
theorem Tracks.startCycle (hx : x.Tracks id before) (mode : FetchMode) (queue : List RecordHandle) :
    (x.startCycle mode queue).1.Tracks id before where
  begun := Nat.lt_succ_of_lt hx.begun
  noted c hc hid := by
    obtain rfl := Option.some.inj hc
    exact absurd hid (Nat.ne_of_gt hx.begun)

theorem startCycle_tracks (x : Exchange) (mode : FetchMode) (queue : List RecordHandle) :
    (x.startCycle mode queue).1.Tracks x.nextCycle x.repository where
  begun := Nat.lt_succ_self _
  noted c hc _ := by
    obtain rfl := Option.some.inj hc
    exact ⟨rfl, fun _ _ => rfl⟩

/-- What is taken back before a cycle over the whole repository is noted in it. -/
theorem beginResync_accounts (x : Exchange) :
    Accounts (x.startCycle .chain [RecordHandle.terminator]).1 x.beginResync.1 [] := by
  have hremove (y : Exchange) : Accounts y
      { y with repository := (y.repository.removeRange y.settings.hostRange).1, termini := ∅
               phase := .awaitingFirstRecord }
      ((y.repository.removeRange y.settings.hostRange).2.map Prod.fst) := by
    refine .of_get? rfl rfl fun h hh => ?_
    rw [Repository.mem_removeRange] at hh
    rw [Repository.get?_removeRange]
    split_ifs with hin
    · cases hg : y.repository.get? h with
      | none => rfl
      | some record => simp [hg, hin] at hh
    · rfl
  have hretract := (x.startCycle .chain [RecordHandle.terminator]).1.retractMerges_accounts
  have hnoted := (hretract.trans (hremove _)).touch fun k hk => List.mem_append.mp hk
  exact hnoted.touch fun k hk => .inl hk

theorem beginFetch_tracks {handles : List RecordHandle} (hx : x.Tracks id before) :
    (x.beginFetch handles).1.Tracks id before := by
  unfold beginFetch
  cases hc : x.cycle with
  | some c =>
    refine ⟨hx.begun, fun d hd hid => ?_⟩
    obtain rfl := Option.some.inj hd
    exact hx.noted c hc hid
  | none =>
    dsimp only
    split
    · exact hx
    · exact (hx.startCycle .listed _).of_accounts (.of_get? rfl rfl fun _ _ => rfl)

theorem nextRequest_tracks (hx : x.Tracks id before) : x.nextRequest.1.Tracks id before := by
  unfold nextRequest
  cases hc : x.cycle with
  | none => exact hx
  | some c =>
    dsimp only
    split_ifs
    · split
      · refine ⟨hx.begun, fun d hd hid => ?_⟩
        obtain rfl := Option.some.inj hd
        exact hx.noted c hc hid
      · exact hx
    · exact hx.of_idle rfl rfl

/-- A record that is not compared when a cycle completes has not been noted, and stays as it is. -/
theorem completed_get? {c : Cycle} {h : RecordHandle}
    (hh : h ∉ (c.touched.insertMany
      (fixedRecords x.settings x.settings.fixups x.repository)).toList) :
    h ∉ c.touched ∧ x.completed.repository.get? h = x.repository.get? h := by
  simp only [Std.ExtTreeSet.mem_toList, Std.ExtTreeSet.mem_insertMany_list, not_or] at hh
  exact ⟨hh.1, get?_applyFixups_of_not_mem (by simpa using hh.2)⟩

/-- A cycle that completes with all changes noted results in the exact difference. -/
theorem completion_exact {c : Cycle}
    (hnoted : ∀ h, h ∉ c.touched → x.repository.get? h = c.before.get? h) :
    ChangeNotice.Exact c.before x.completed.repository (x.completion? c) := by
  have hsorted (handles : HandleSet) : handles.toList.Pairwise (· < ·) :=
    handles.ordered_toList.imp fun hab => by simpa [Std.compare_eq_lt] using hab
  apply ChangeNotice.exact_between (hsorted _)
  intro h hh
  obtain ⟨hout, hget⟩ := completed_get? hh
  exact hget.trans (hnoted h hout)

theorem advance_tracks {next : RecordHandle} {result : Except ExchangeError FetchOutcome}
    (hx : x.Tracks id before) (h : x.advance next = (y, result)) : y.Tracks id before := by
  rcases advance_cases h with ⟨-, rfl, -⟩ | ⟨c, hc, ⟨rfl, -⟩ | ⟨rfl, -⟩ | ⟨rfl, -⟩⟩
  · exact hx
  · exact hx.of_idle rfl rfl
  · exact hx.of_idle rfl rfl
  · refine ⟨hx.begun, fun d hd hid => ?_⟩
    obtain rfl := Option.some.inj hd
    simpa using hx.noted c hc (by simpa using hid)

theorem answered_tracks {c : Cycle} (hc : x.cycle = some c) (hx : x.Tracks id before) :
    (x.answered c).Tracks id before := by
  refine ⟨hx.begun, fun d hd hid => ?_⟩
  obtain rfl := Option.some.inj hd
  exact hx.noted c hc hid

theorem receive_tracks {cycle : CycleId} {answer : Except RequestError Bytes}
    {result : Except ExchangeError FetchOutcome} (hx : x.Tracks id before)
    (h : x.receive cycle answer = (y, result)) (hfatal : ∀ e, result ≠ .error (.fatal e)) :
    y.Tracks id before := by
  rcases receive_cases h with ⟨rfl, -⟩ | ⟨c, handle, hc, -, -, ⟨e, -, rfl, -⟩ |
    ⟨record, next, -, ⟨z, e, -, -, he⟩ | ⟨z, hi, ha⟩⟩⟩
  · exact hx.of_accounts (.of_get? rfl rfl fun _ _ => rfl)
  · exact hx.of_idle rfl rfl
  · exact absurd he (hfatal e)
  · exact advance_tracks ((answered_tracks hc hx).of_accounts (importRecord_accounts hi)) ha

/-- Calls that run cycles keep everything noted that changes during a cycle. -/
theorem call?_tracks {call : Call} (hcall : call.runsCycles = true) (hx : x.Tracks id before)
    (h : x.call? call = some y) : y.Tracks id before := by
  cases call with
  | resync =>
    obtain rfl := Option.some.inj h
    exact (hx.startCycle _ _).of_accounts x.beginResync_accounts
  | fetch handles =>
    obtain rfl := Option.some.inj h
    exact beginFetch_tracks hx
  | request =>
    obtain rfl := Option.some.inj h
    exact nextRequest_tracks hx
  | receive cycle answer =>
    obtain ⟨result, hreceive, hfatal⟩ := call?_receive h
    exact receive_tracks hx hreceive hfatal
  | forget handles => simp [Call.runsCycles] at hcall
  | hostDown => simp [Call.runsCycles] at hcall
  | link up =>
    obtain rfl := Option.some.inj h
    exact ⟨hx.begun, hx.noted⟩

theorem Begins.tracks (h : x.Begins y id) : y.Tracks id x.repository := by
  cases h with
  | resync h =>
    obtain ⟨rfl, rfl⟩ := Prod.mk.inj h
    exact (x.startCycle_tracks _ _).of_accounts x.beginResync_accounts
  | fetch hidle h =>
    simp only [beginFetch, hidle] at h
    split at h
    · simp at h
    · obtain ⟨rfl, hid⟩ := Prod.mk.inj h
      obtain rfl := Option.some.inj hid
      exact (x.startCycle_tracks _ _).of_accounts (.of_get? rfl rfl fun _ _ => rfl)

/-- The result of every cycle that completes is the exact difference between the repository at the
moment the cycle was begun and at its end, whatever else was asked of the exchange meanwhile, as
long as no records were withdrawn and no termini marked. -/
theorem completed_cycle_exact {z : Exchange} (hbegin : x.Begins y id) {calls : List Call}
    (hcalls : ∀ call ∈ calls, call.runsCycles = true) {mid : Exchange}
    (hrun : y.run? calls = some mid)
    {answer : Except RequestError Bytes} {notice : Option ChangeNotice}
    (hcomplete : mid.receive id answer = (z, .ok (.complete notice))) :
    ChangeNotice.Exact x.repository z.repository notice := by
  have hmid : mid.Tracks id x.repository :=
    run?_induction (fun _ _ _ hp hc h => call?_tracks hc hp h) hcalls hbegin.tracks hrun
  rcases receive_cases hcomplete with ⟨-, h⟩ | ⟨c, handle, hc, hcid, -, ⟨e, -, -, h⟩ |
    ⟨record, next, -, ⟨_, e, -, -, h⟩ | ⟨last, hi, ha⟩⟩⟩
  · simp at h
  · simp at h
  · simp at h
  have hlast := (answered_tracks hc hmid).of_accounts (importRecord_accounts hi)
  rcases advance_cases ha with ⟨-, -, h⟩ | ⟨c', hc', ⟨-, h⟩ | ⟨rfl, h⟩ | ⟨-, h⟩⟩
  · simp at h
  · simp at h
  · obtain rfl : notice = _ := FetchOutcome.complete.inj (Except.ok.inj h)
    obtain ⟨_, hc₀, hid₀, -⟩ := (importRecord_accounts hi).cycle c' hc'
    obtain rfl := Option.some.inj hc₀
    obtain ⟨hcb, hcn⟩ := hlast.noted c' hc' (hid₀.trans hcid)
    rw [← hcb, ← c'.follow_before next]
    apply completion_exact
    intro h hh
    rw [c'.follow_before, hcb]
    exact hcn h (by simpa using hh)
  · simp at h

/-- One sensor record imported into an empty repository is added. -/
theorem completed_cycle_exact_sole_sensor :
    let sensor : StateSensor := ⟨3, 1, ⟨1, 1, 1⟩, 0, false, []⟩
    let answer := RecordResponse.single RecordHandle.terminator (encodeRecord 5 sensor)
    let done := (default : Exchange).beginResync.1.nextRequest.1.receive 0 (.ok answer.encode)
    done.2 = .ok (.complete (some ⟨[0x01000000], [], []⟩)) ∧
      ChangeNotice.Exact (default : Exchange).repository done.1.repository
        (some ⟨[0x01000000], [], []⟩) := by
  intro sensor answer done
  have hdone : done.2 = .ok (.complete (some ⟨[0x01000000], [], []⟩)) := by decide +kernel
  have hcalls : ∀ call ∈ [Call.request], call.runsCycles = true := by simp [Call.runsCycles]
  exact ⟨hdone, completed_cycle_exact (.resync rfl) hcalls rfl (Prod.ext rfl hdone)⟩

end Exchange
end DescriptorExchange
