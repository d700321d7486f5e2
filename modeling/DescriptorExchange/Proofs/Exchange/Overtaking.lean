import DescriptorExchange.Proofs.Exchange.Announcing
import DescriptorExchange.Proofs.Exchange.Withdrawals

/-!
Withdrawals while a cycle over listed records runs. A withdrawal takes effect on the imports at once
and leaves the cycle alone, which still asks for what it has in its queue and still takes the answer
it waits for. So a record that has been withdrawn is back when the cycle completes if an answer has
brought it since.
-/
namespace DescriptorExchange

/-- A cycle later on: it asks for what it was to ask for and for what has been named since. -/
structure Cycle.Spans (c : Cycle) (named : RecordHandle → Prop) (d : Cycle) : Prop where
  id : d.id = c.id
  mode : d.mode = c.mode
  queue : ∀ k ∈ d.queue, k ∈ c.queue ∨ named k
  pending : ∀ k ∈ d.pending, k ∈ c.pending ∨ named k

namespace Cycle.Spans

variable {c d e : Cycle} {named more : RecordHandle → Prop}

theorem refl (c : Cycle) : c.Spans named c := ⟨rfl, rfl, fun _ => .inl, fun _ => .inl⟩

theorem trans (hcd : c.Spans named d) (hde : d.Spans more e) :
    c.Spans (fun k => named k ∨ more k) e where
  id := hde.id.trans hcd.id
  mode := hde.mode.trans hcd.mode
  queue k hk := (hde.queue k hk).elim (fun hk => (hcd.queue k hk).imp_right .inl) (.inr ∘ .inr)
  pending k hk := (hde.pending k hk).elim (fun hk => (hcd.pending k hk).imp_right .inl) (.inr ∘ .inr)

theorem mono (hcd : c.Spans named d) (hnamed : ∀ k, named k → more k) : c.Spans more d :=
  ⟨hcd.id, hcd.mode, fun k hk => (hcd.queue k hk).imp_right (hnamed k),
    fun k hk => (hcd.pending k hk).imp_right (hnamed k)⟩

end Cycle.Spans

namespace Exchange

variable {x y z u : Exchange} {c d : Cycle} {h j k : RecordHandle} {call : Call}
  {calls left : List Call} {record : Bytes}

section imports

theorem unmergeAll_imports (k : RecordHandle) (children : List Entity) (x : Exchange) :
    (unmergeAll k children x).1.imports = x.imports :=
  unmergeAll_induction (p := fun y => y.imports = x.imports)
    (fun y child hy => (unmerge_tends y k child).1.imports.trans hy) children rfl

theorem mem_imports_of_dropImport (hj : j ∈ (x.dropImport h).1.imports) : j ∈ x.imports := by
  have herased (hj : j ∈ x.imports.erase h) : j ∈ x.imports := Std.ExtTreeMap.mem_of_mem_erase hj
  simp only [dropImport] at hj
  split at hj
  next => exact hj
  next k _ =>
    rw [dropStored_imports] at hj
    exact herased hj
  next parent children k _ =>
    have hundone : (unmergeAll k children { x with imports := x.imports.erase h }).1.imports =
        x.imports.erase h := unmergeAll_imports ..
    split at hj
    all_goals
      rename_i heq
      rw [heq] at hundone
      exact herased (hundone ▸ hj)

/-- A withdrawal adds no import, even where it fails. -/
theorem mem_imports_of_forget {handles : List RecordHandle} (hj : j ∈ (x.forget handles).1.imports) :
    j ∈ x.imports := by
  have hdropped (hj : j ∈ (dropImports handles x).1.imports) : j ∈ x.imports :=
    dropImports_induction (p := fun y => j ∈ y.imports → j ∈ x.imports)
      (fun _ _ hy hj => hy (mem_imports_of_dropImport hj)) handles id hj
  unfold forget at hj
  split at hj
  next heq => exact hdropped (by rwa [heq])
  next y touched sensors heq =>
    refine hdropped ?_
    rw [heq]
    dsimp only at hj
    split_ifs at hj <;> exact hj

theorem mem_imports_of_classify {header : RecordHeader}
    (hj : j ∈ (x.classify header record).1.imports) : j ∈ x.imports ∨ j = header.handle := by
  have hinsert {i : Import} (hj : j ∈ x.imports.insert header.handle i) :
      j ∈ x.imports ∨ j = header.handle := by
    rw [Std.ExtTreeMap.mem_insert, Std.LawfulEqCmp.compare_eq_iff_eq] at hj
    exact hj.symm.imp_right Eq.symm
  rcases classify_uniform header record with hskip | ⟨⟨_, a⟩, -, hmerge⟩ | ⟨note, -, hstore⟩
  · rw [hskip] at hj
    exact .inl hj
  · rw [hmerge] at hj
    rcases x.merge_cases header.handle a with
      heq | ⟨node, parent, y, -, -, ⟨cause, hchildren, heq⟩ | ⟨new, hchildren, hcases⟩⟩
    · rw [heq] at hj
      exact .inl hj
    all_goals
      have himports : y.imports = x.imports := by
        have htends := (mergeChildren_tends node parent a.kind a.children x.findParent).1
        rw [hchildren] at htends
        exact htends.imports
    · rw [heq] at hj
      exact .inl (himports ▸ hj)
    rcases hcases with ⟨-, heq⟩ | ⟨child, k, -, heq⟩
    · rw [heq] at hj
      exact .inl (himports ▸ hj)
    · rw [heq] at hj
      simp only [himports] at hj
      exact hinsert hj
  · rw [hstore] at hj
    unfold store at hj
    split at hj
    · exact .inl hj
    · exact hinsert hj

theorem mem_imports_of_importRecord (hj : j ∈ (x.importRecord record).1.imports) :
    j ∈ x.imports ∨ ownHandle? record = some j := by
  rcases x.importRecord_cases record with ⟨cause, -, heq⟩ | ⟨header, body, hsplit, hcases⟩
  · rw [heq] at hj
    exact .inl hj
  have hown (hjk : j = header.handle) : ownHandle? record = some j := by
    simp only [ownHandle?, hsplit, hjk]
    rfl
  have hforgot (hj : j ∈ ((x.see header.handle).forget [header.handle]).1.imports) : j ∈ x.imports :=
    mem_imports_of_forget (x := x.see header.handle) hj
  rcases hcases with ⟨-, heq⟩ | ⟨-, ⟨y, cause, hfails, heq⟩ | ⟨y, touched, hforget, heq⟩⟩
  · rw [heq] at hj
    exact (mem_imports_of_classify hj).imp_right hown
  · rw [heq] at hj
    exact .inl (hforgot (by rwa [hfails]))
  · rw [heq] at hj
    exact (mem_imports_of_classify hj).imp (fun hj => hforgot (by rwa [hforget])) hown

theorem advance_imports (x : Exchange) (next : RecordHandle) :
    (x.advance next).1.imports = x.imports := by
  obtain ⟨y, result, hadvance⟩ : ∃ y result, x.advance next = (y, result) := ⟨_, _, rfl⟩
  rw [hadvance]
  rcases advance_cases hadvance with ⟨-, rfl, -⟩ | ⟨c, -, ⟨rfl, -⟩ | ⟨rfl, -⟩ | ⟨rfl, -⟩⟩ <;> rfl

theorem mem_imports_of_receive {cycle : CycleId} {answer : Except RequestError Bytes}
    (hj : j ∈ (x.receive cycle answer).1.imports) :
    j ∈ x.imports ∨ x.brought? cycle answer = some j := by
  obtain ⟨y, result, hreceive⟩ : ∃ y result, x.receive cycle answer = (y, result) := ⟨_, _, rfl⟩
  rw [hreceive] at hj
  rcases receive_cases hreceive with ⟨rfl, -⟩ | ⟨c, handle, hc, rfl, hflight, hcases⟩
  · exact .inl hj
  have hawaited : x.awaited? c.id = some handle := awaited?_eq_some.mpr ⟨c, hc, rfl, hflight⟩
  rw [brought?_of_awaited hawaited]
  rcases hcases with ⟨cause, -, rfl, -⟩ | ⟨record, next, hread, hrecord⟩
  · exact .inl hj
  have himport (hj : j ∈ ((x.answered c).importRecord record).1.imports) :
      j ∈ x.imports ∨ (readAnswer handle answer).toOption.bind (fun read => ownHandle? read.1) =
        some j := by
    rw [hread]
    exact mem_imports_of_importRecord (x := x.answered c) hj
  rcases hrecord with ⟨z, cause, heq, rfl, -⟩ | ⟨z, heq, hadvance⟩
  · exact himport (by rwa [heq])
  · have hz := z.advance_imports next
    rw [hadvance] at hz
    exact himport (by rwa [heq, ← hz])

/-- The only imports that a call adds are those of the records that an answer brings. -/
theorem mem_imports_of_call? (hcall : x.call? call = some y) (hj : j ∈ y.imports) :
    j ∈ x.imports ∨
      ∃ cycle answer, call = .receive cycle answer ∧ x.brought? cycle answer = some j := by
  cases call with
  | resync =>
    obtain rfl := Option.some.inj hcall
    simp [beginResync_imports] at hj
  | fetch handles =>
    obtain rfl := Option.some.inj hcall
    rcases x.beginFetch_cases handles with ⟨c, -, heq⟩ | ⟨-, heq⟩ | ⟨-, phase, heq⟩
    all_goals
      rw [heq] at hj
      exact .inl hj
  | request =>
    obtain rfl := Option.some.inj hcall
    rcases x.nextRequest_cases with heq | heq | ⟨c, handle, rest, phase, -, -, -, heq⟩
    all_goals
      rw [heq] at hj
      exact .inl hj
  | receive cycle answer =>
    obtain ⟨result, hreceive, -⟩ := call?_receive hcall
    have hj : j ∈ (x.receive cycle answer).1.imports := by rwa [hreceive]
    exact (mem_imports_of_receive hj).imp_right fun hbrought => ⟨cycle, answer, rfl, hbrought⟩
  | forget handles =>
    obtain rfl := Option.some.inj hcall
    exact .inl (mem_imports_of_forget hj)
  | hostDown =>
    obtain rfl := Option.some.inj hcall
    exact .inl (x.invalidateTermini_imports ▸ hj)
  | link up =>
    obtain rfl := Option.some.inj hcall
    exact .inl hj

/-- What a run has imported has been brought in it. -/
theorem mem_imports_of_run? (hrun : x.run? calls = some y) (hj : j ∈ y.imports) :
    j ∈ x.imports ∨ ∃ u cycle answer left, x.ComesTo calls u (.receive cycle answer :: left) ∧
      u.brought? cycle answer = some j := by
  induction calls generalizing x with
  | nil =>
    obtain rfl := Option.some.inj hrun
    exact .inl hj
  | cons call rest ih =>
    obtain ⟨mid, hcall, hrest⟩ := Option.bind_eq_some_iff.mp hrun
    rcases ih hrest with hmid | ⟨u, cycle, answer, left, hu, hbrought⟩
    · refine (mem_imports_of_call? hcall hmid).imp_right ?_
      rintro ⟨cycle, answer, rfl, hbrought⟩
      exact ⟨x, cycle, answer, rest, .refl x _, hbrought⟩
    · exact .inr ⟨u, cycle, answer, left, hu.step hcall, hbrought⟩

end imports

section cycles

/-- A fetch among the calls names the record. -/
def Named (calls : List Call) (k : RecordHandle) : Prop :=
  ∃ handles, Call.fetch handles ∈ calls ∧ k ∈ handles

theorem Named.cons (hk : Named calls k) (call : Call) : Named (call :: calls) k := by
  obtain ⟨handles, hmem, hk⟩ := hk
  exact ⟨handles, List.mem_cons_of_mem call hmem, hk⟩

theorem Named.of_first (hk : Named [call] k) : Named (call :: calls) k := by
  obtain ⟨handles, hmem, hk⟩ := hk
  exact ⟨handles, List.mem_singleton.mp hmem ▸ List.mem_cons_self, hk⟩

theorem nextRequest_spans (hc : x.cycle = some c) (hd : x.nextRequest.1.cycle = some d) :
    c.Spans (Named calls) d := by
  rcases x.nextRequest_cases with heq | heq | ⟨c', handle, rest, phase, hc', hflight, hqueue, heq⟩
  · rw [heq] at hd
    obtain rfl := Option.some.inj (hc.symm.trans hd)
    exact .refl c
  · rw [heq] at hd
    simp [abort] at hd
  · rw [heq] at hd
    obtain rfl := Option.some.inj (hc.symm.trans hc')
    obtain rfl := Option.some.inj hd
    refine ⟨rfl, rfl, fun k hk => .inl ?_, fun k hk => .inl ?_⟩
    · rw [hqueue]
      exact List.mem_cons_of_mem handle hk
    · simpa [Cycle.pending, hflight, hqueue] using hk

theorem beginFetch_spans {handles : List RecordHandle} (hc : x.cycle = some c)
    (hd : (x.beginFetch handles).1.cycle = some d) : c.Spans (Named [.fetch handles]) d := by
  rcases x.beginFetch_cases handles with ⟨c', hc', heq⟩ | ⟨hnone, -⟩ | ⟨hnone, -⟩
  · obtain rfl := Option.some.inj (hc.symm.trans hc')
    rw [heq] at hd
    obtain rfl := Option.some.inj hd
    have hjoined {k : RecordHandle} (hk : k ∈ (handles.filter (· ≠ RecordHandle.terminator)).filter
        fun h => h ∉ c.queue ∧ c.inFlight ≠ some h) : Named [.fetch handles] k :=
      ⟨handles, List.mem_singleton_self _, List.mem_of_mem_filter (List.mem_of_mem_filter hk)⟩
    refine ⟨rfl, rfl, fun k hk => (List.mem_append.mp hk).imp_right hjoined, fun k hk => ?_⟩
    simp only [Cycle.pending, ← List.append_assoc] at hk
    exact (List.mem_append.mp hk).imp_right hjoined
  · simp [hc] at hnone
  · simp [hc] at hnone

theorem receive_spans {cycle : CycleId} {answer : Except RequestError Bytes}
    {result : Except ExchangeError FetchOutcome} (hc : x.cycle = some c) (hmode : c.mode = .listed)
    (h : x.receive cycle answer = (y, result)) (hd : y.cycle = some d) : c.Spans (Named calls) d := by
  rcases receive_cases h with ⟨rfl, -⟩ | ⟨c', handle, hc', -, -, ⟨cause, -, rfl, -⟩ |
    ⟨record, next, -, ⟨v, cause, -, rfl, -⟩ | ⟨v, himport, hadvance⟩⟩⟩
  · obtain rfl := Option.some.inj (hc.symm.trans hd)
    exact .refl c
  · simp [abort] at hd
  · simp [abort] at hd
  obtain rfl := Option.some.inj (hc.symm.trans hc')
  obtain ⟨d', hd', hid, hmode', hqueue, hflight, -⟩ :=
    importRecord_cycle (x := x.answered c) rfl record
  rw [himport] at hd'
  rcases advance_cases hadvance with ⟨hnone, -⟩ | ⟨c'', hc'', ⟨rfl, -⟩ | ⟨rfl, -⟩ | ⟨rfl, -⟩⟩
  · exact absurd (hd'.symm.trans hnone) (by simp)
  · simp [abort] at hd
  · simp [completed] at hd
  · obtain rfl := Option.some.inj (hd'.symm.trans hc'')
    obtain rfl := Option.some.inj hd
    have hfollow : d'.follow next = d' := by simp [Cycle.follow, hmode', hmode]
    rw [hfollow]
    refine ⟨hid, hmode', fun k hk => .inl (hqueue ▸ hk), fun k hk => .inl ?_⟩
    simp only [Cycle.pending, hflight, hqueue, Option.toList_none, List.nil_append] at hk
    exact List.mem_append_right _ hk

/-- What a call that does not end a cycle over listed records adds to what it asks for. -/
theorem call?_spans (hx : x.Numbered) (hc : x.cycle = some c) (hmode : c.mode = .listed)
    (hcall : x.call? call = some y) (hd : y.cycle = some d) (hid : d.id = c.id) :
    c.Spans (Named [call]) d := by
  have hsame (hcycle : y.cycle = x.cycle) : c.Spans (Named [call]) d := by
    obtain rfl := Option.some.inj (hc.symm.trans (hcycle.symm.trans hd))
    exact .refl c
  cases call with
  | resync =>
    obtain rfl := Option.some.inj hcall
    obtain ⟨d', hd', hagenda⟩ := x.beginResync_undisturbed.cycle_eq_some rfl
    obtain rfl := Option.some.inj (hd.symm.trans hd')
    have hnew : d.id = x.nextCycle := congrArg Prod.fst hagenda
    exact absurd (hid.symm.trans hnew) (Nat.ne_of_lt (hx c hc))
  | fetch handles =>
    obtain rfl := Option.some.inj hcall
    exact beginFetch_spans hc hd
  | request =>
    obtain rfl := Option.some.inj hcall
    exact nextRequest_spans hc hd
  | receive cycle answer =>
    obtain ⟨result, hreceive, -⟩ := call?_receive hcall
    exact receive_spans hc hmode hreceive hd
  | forget handles =>
    obtain rfl := Option.some.inj hcall
    exact hsame (forget_aside x handles).cycle
  | hostDown =>
    obtain rfl := Option.some.inj hcall
    exact hsame x.invalidateTermini_aside.cycle
  | link up =>
    obtain rfl := Option.some.inj hcall
    exact hsame rfl

/-- A cycle that runs before a call and at the end of the run runs after the call. -/
theorem cycle_of_running (hx : x.Numbered) (hc : x.cycle = some c) (hcall : x.call? call = some y)
    (hrun : y.run? calls = some z) (hd : z.cycle = some d) (hid : d.id = c.id) :
    ∃ e, y.cycle = some e ∧ e.id = c.id := by
  by_contra hnone
  have hpast : y.Past c.id :=
    ⟨Nat.lt_of_lt_of_le (hx c hc) (call?_proceeds hcall).next, fun e he hid => hnone ⟨e, he, hid⟩⟩
  exact (hpast.run? hrun).ended d hd hid

/-- Wherever a run comes to during which a cycle over listed records goes on. -/
theorem comesTo_spans (hx : x.Numbered) (hc : x.cycle = some c) (hmode : c.mode = .listed)
    (hrun : x.run? calls = some z) (hd : z.cycle = some d) (hid : d.id = c.id)
    (hu : x.ComesTo calls u left) : ∃ e, u.cycle = some e ∧ c.Spans (Named calls) e := by
  induction calls generalizing x c with
  | nil =>
    obtain ⟨done, heq, hdone⟩ := hu
    obtain ⟨rfl, -⟩ := List.nil_eq_append_iff.mp heq
    obtain rfl := Option.some.inj hdone
    exact ⟨c, hc, .refl c⟩
  | cons call rest ih =>
    rcases hu.cases with ⟨rfl, -⟩ | ⟨mid, hcall, hmid⟩
    · exact ⟨c, hc, .refl c⟩
    -- what runs at the end runs after the first call, so the rest begins with the same cycle
    have hrest : mid.run? rest = some z := by rwa [run?, hcall] at hrun
    obtain ⟨c', hc', hid'⟩ := cycle_of_running hx hc hcall hrest hd hid
    have hfirst := call?_spans hx hc hmode hcall hc' hid'
    obtain ⟨e, he, hspans⟩ := ih ((call?_proceeds hcall).numbered hx) hc' (hfirst.mode.trans hmode)
      hrest (hid.trans hid'.symm) hmid
    refine ⟨e, he, (hfirst.trans hspans).mono fun k hk => ?_⟩
    exact hk.elim Named.of_first fun hk => hk.cons call

/-- What a run asks for was in the queue of a cycle. -/
theorem queued_of_requests {id : CycleId} (hasked : ⟨id, h⟩ ∈ x.requests calls) :
    ∃ u left d, x.ComesTo calls u left ∧ u.cycle = some d ∧ d.id = id ∧ h ∈ d.queue := by
  induction calls generalizing x with
  | nil => simp [requests] at hasked
  | cons call rest ih =>
    rw [requests, List.mem_append] at hasked
    rcases hasked with hfirst | hrest
    · refine ⟨x, call :: rest, ?_⟩
      unfold requested at hfirst
      split at hfirst
      next =>
        rcases x.nextRequest_cases with heq | heq | ⟨c, handle, queue, phase, hc, -, hqueue, heq⟩
        · simp [heq] at hfirst
        · simp [heq] at hfirst
        · simp only [heq, List.mem_singleton, FetchRequest.mk.injEq] at hfirst
          obtain ⟨rfl, rfl⟩ := hfirst
          exact ⟨c, .refl x _, hc, rfl, hqueue ▸ List.mem_cons_self⟩
      next => simp at hfirst
    · cases hcall : x.call? call with
      | none => simp [hcall] at hrest
      | some y =>
        rw [hcall] at hrest
        obtain ⟨u, left, d, hu, hd⟩ := ih hrest
        exact ⟨u, left, d, hu.step hcall, hd⟩

end cycles

/-- An answer that is taken in the run for a request of the cycle brings the record. -/
def Delivers (x : Exchange) (calls : List Call) (id : CycleId) (asked h : RecordHandle) : Prop :=
  ∃ u answer left, x.ComesTo calls u (.receive id answer :: left) ∧ u.awaited? id = some asked ∧
    u.brought? id answer = some h

/-- A cycle that completes takes up nothing that was withdrawn before, unless an answer has brought it
since, to a request that was pending then or has been named since. -/
theorem delivered_of_mem {answer : Except RequestError Bytes} {notice : Option ChangeNotice}
    (hx : x.Numbered) (hc : x.cycle = some c) (hmode : c.mode = .listed) (hgone : h ∉ x.imports)
    (hrun : x.run? calls = some y) (hcomplete : y.receive c.id answer = (z, .ok (.complete notice)))
    (hh : h ∈ z.imports) : ∃ asked, (asked ∈ c.pending ∨ Named calls asked) ∧
      x.Delivers (calls ++ [.receive c.id answer]) c.id asked h := by
  obtain ⟨d, _, _, _, hd, hid, -⟩ := receive_complete hcomplete
  -- no other cycle runs in between, so every answer that brings a record is one of this cycle
  have hdelivers {u : Exchange} {cycle : CycleId} {body : Except RequestError Bytes}
      {left : List Call} (hu : x.ComesTo calls u left) (hbrought : u.brought? cycle body = some h) :
      ∃ asked, cycle = c.id ∧ u.awaited? c.id = some asked ∧
        (asked ∈ c.pending ∨ Named calls asked) := by
    obtain ⟨asked, hawaited, -⟩ := Option.bind_eq_some_iff.mp hbrought
    obtain ⟨e, he, rfl, hflight⟩ := awaited?_eq_some.mp hawaited
    obtain ⟨e', he', hspans⟩ := comesTo_spans hx hc hmode hrun hd hid hu
    obtain rfl := Option.some.inj (he.symm.trans he')
    refine ⟨asked, hspans.id, hspans.id ▸ hawaited, hspans.pending asked ?_⟩
    simp [Cycle.pending, hflight]
  rcases mem_imports_of_call? (call?_of_receive hcomplete) hh with hy | ⟨cycle, body, heq, hbrought⟩
  · rcases mem_imports_of_run? hrun hy with hx | ⟨u, cycle, body, left, hu, hbrought⟩
    · exact absurd hx hgone
    · obtain ⟨asked, rfl, hawaited, hasked⟩ := hdelivers hu hbrought
      exact ⟨asked, hasked, u, body, _, hu.append _, hawaited, hbrought⟩
  · obtain ⟨asked, rfl, hawaited, hasked⟩ := hdelivers (.last hrun) hbrought
    refine ⟨asked, hasked, y, body, [], ?_, hawaited, hbrought⟩
    rw [← heq]
    exact (ComesTo.last hrun).append _

/-- Records are withdrawn while a cycle over listed records runs. They are gone at once, but the cycle
goes on as it was: it asks for what it has in its queue, and what an answer brings is there again. -/
theorem forget_during_fetch {settings : ExchangeSettings} {names : EntityNames} {r : Repository}
    {t : Containment} {earlier : List Call}
    (hsettings : settings.ownRange.Apart settings.hostRange)
    (hranges : r.ownRange.Apart r.hostRange) (hhost : r.hostRange = settings.hostRange)
    (hrun : (start settings names r t).run? earlier = some x) (hc : x.cycle = some c)
    (hmode : c.mode = .listed) (handles : List RecordHandle) :
    ∃ y touched, x.forget handles = (y, .ok touched) ∧ y.cycle = some c ∧
      (∀ h ∈ handles, h ∉ y.imports) ∧
      ∀ later z answer w notice, y.run? later = some z →
        z.receive c.id answer = (w, .ok (.complete notice)) →
        ∀ h ∈ handles,
          (h ∈ w.imports → ∃ asked, (asked ∈ c.pending ∨ Named later asked) ∧
            y.Delivers (later ++ [.receive c.id answer]) c.id asked h) ∧
          (⟨c.id, h⟩ ∈ y.requests later → h ∈ c.queue ∨ Named later h) ∧
          (h ∈ c.queue → ⟨c.id, h⟩ ∈ y.requests later) := by
  have hundoable : (start settings names r t).Undoable := .start names t hsettings hranges hhost
  obtain ⟨y, touched, hforget, -, himports⟩ := (hundoable.run? hrun).forget handles
  have hcall : x.call? (.forget handles) = some y := by rw [call?, hforget]
  have hy : y.cycle = some c := by
    have hcycle := (forget_aside x handles).cycle
    rw [hforget] at hcycle
    exact hcycle.trans hc
  have hgone : ∀ h ∈ handles, h ∉ y.imports := fun h hh => by
    rw [Std.ExtTreeMap.mem_iff_isSome_getElem?, himports, if_pos hh]
    simp
  have hnumbered : y.Numbered := (call?_proceeds hcall).numbered (run?_numbered hrun)
  refine ⟨y, touched, hforget, hy, hgone, fun later z answer w notice hlater hcomplete h hh => ?_⟩
  refine ⟨delivered_of_mem hnumbered hy hmode (hgone h hh) hlater hcomplete, fun hasked => ?_,
    fun hqueued => ?_⟩
  · obtain ⟨d, _, _, _, hd, hid, -⟩ := receive_complete hcomplete
    obtain ⟨u, left, e, hu, he, -, hqueued⟩ := queued_of_requests hasked
    obtain ⟨e', he', hspans⟩ := comesTo_spans hnumbered hy hmode hlater hd hid hu
    obtain rfl := Option.some.inj (he.symm.trans he')
    exact hspans.queue h hqueued
  · have hdue : y.Due c.id h := ⟨hnumbered c hy, fun d hd _ => by
      obtain rfl := Option.some.inj (hy.symm.trans hd)
      exact hqueued⟩
    exact (run?_due hdue hlater).resolve_left fun hdue => not_complete_of_due hdue hcomplete

/-- Two records are withdrawn while one of them is outstanding and the other one is in the queue. The
first is back with its answer, and the other one is asked for. -/
theorem forget_during_fetch_pair :
    let seeded := (Containment.empty.addRoot ⟨11521, 1, 0⟩ .own).1
    let started := start Configuration.standard.settings ⟨[]⟩ (.empty .localDefault .hostDefault) seeded
    let x := (started.beginFetch [5, 6]).1.nextRequest.1
    let y := (x.forget [5, 6]).1
    let first := Call.receive 0 (.ok (sensorAnswer 5 RecordHandle.terminator))
    let z := (y.after first).after .request
    let answer := sensorAnswer 6 RecordHandle.terminator
    ∃ c, x.cycle = some c ∧ c.mode = .listed ∧ c.pending = [5, 6] ∧
      (z.receive 0 (.ok answer)).2 = .ok (.complete (some ⟨[0x01000000, 0x01000001], [], []⟩)) ∧
      5 ∉ y.imports ∧ 5 ∈ (z.receive 0 (.ok answer)).1.imports ∧
      (∃ asked, (asked ∈ c.pending ∨ Named [first, .request] asked) ∧
        y.Delivers [first, .request, .receive 0 (.ok answer)] 0 asked 5) ∧
      ⟨0, 6⟩ ∈ y.requests [first, .request] := by
  intro seeded started x y first z answer
  have hrun : started.run? [.fetch [5, 6], .request] = some x := rfl
  obtain ⟨c, hc, hid, hmode, hpending, hqueue⟩ : ∃ c, x.cycle = some c ∧ c.id = 0 ∧
      c.mode = .listed ∧ c.pending = [5, 6] ∧ c.queue = [6] := ⟨_, rfl, rfl, rfl, rfl, rfl⟩
  have hproceed : (y.receive 0 (.ok (sensorAnswer 5 RecordHandle.terminator))).2 = .ok .proceed := by
    decide +kernel
  have hlater : y.run? [first, .request] = some z := by
    rw [run?, call?_of_receive (Prod.ext rfl hproceed)]
    rfl
  have hcomplete : (z.receive 0 (.ok answer)).2 =
      .ok (.complete (some ⟨[0x01000000, 0x01000001], [], []⟩)) := by decide +kernel
  have hback : 5 ∈ (z.receive 0 (.ok answer)).1.imports := by decide +kernel
  have hranges : HandleRange.localDefault.Apart .hostDefault := ⟨by decide, by decide, by decide⟩
  obtain ⟨y', touched, hforget, -, hgone, hlate⟩ :=
    forget_during_fetch hranges hranges rfl hrun hc hmode [5, 6]
  obtain rfl : y' = y := (congrArg Prod.fst hforget).symm
  simp only [hid] at hlate
  have hlate := hlate [first, .request] z (.ok answer) _ _ hlater (Prod.ext rfl hcomplete)
  refine ⟨c, hc, hmode, hpending, hcomplete, hgone 5 (by simp), hback, (hlate 5 (by simp)).1 hback, ?_⟩
  exact (hlate 6 (by simp)).2.2 (by simp [hqueue])

/-- Both records are back when the cycle completes, and no fetch has named them since they were
withdrawn. -/
theorem forget_overtaken :
    let seeded := (Containment.empty.addRoot ⟨11521, 1, 0⟩ .own).1
    let x := ((start Configuration.standard.settings ⟨[]⟩ (.empty .localDefault .hostDefault)
      seeded).beginFetch [5, 6]).1.nextRequest.1
    let y := (x.forget [5, 6]).1
    let later := [Call.receive 0 (.ok (sensorAnswer 5 RecordHandle.terminator)), .request]
    Configuration.standard.seed = .ok (.empty .localDefault .hostDefault, seeded) ∧
    (∃ c, x.cycle = some c ∧ c.id = 0 ∧ c.mode = .listed ∧ 6 ∈ c.queue) ∧
    (∀ handles, Call.fetch handles ∉ later) ∧ ⟨0, 6⟩ ∈ y.requests later ∧
    ∃ z, y.run? later = some z ∧
      let answered := z.receive 0 (.ok (sensorAnswer 6 RecordHandle.terminator))
      answered.2 = .ok (.complete (some ⟨[0x01000000, 0x01000001], [], []⟩)) ∧
        5 ∈ answered.1.imports ∧ 6 ∈ answered.1.imports := by
  intro seeded x y later
  have hrun : (y.run? later).any (fun z =>
      let answered := z.receive 0 (.ok (sensorAnswer 6 RecordHandle.terminator))
      answered.2 = .ok (.complete (some ⟨[0x01000000, 0x01000001], [], []⟩)) ∧
        5 ∈ answered.1.imports ∧ 6 ∈ answered.1.imports) = true := by
    decide +kernel
  obtain ⟨z, hz, hfacts⟩ := (Option.any_eq_true _ _).mp hrun
  refine ⟨rfl, ⟨_, rfl, rfl, rfl, by decide⟩, fun handles => by simp [later], ?_, z, hz,
    of_decide_eq_true hfacts⟩
  decide +kernel

end Exchange
end DescriptorExchange
