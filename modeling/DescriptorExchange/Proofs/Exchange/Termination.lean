import DescriptorExchange.Proofs.Exchange.Correlation
import DescriptorExchange.Proofs.Exchange.Reports
import Mathlib.Algebra.GroupWithZero.Nat
import Mathlib.Data.List.Perm.Subperm

/-!
A resync ends against every host. The host chooses the records and the handles after them as it likes,
also by what it has been asked before. A resync that no fetch joins still has no more than one handle
in hand, and asks for no handle twice: a handle is only queued if the cycle has not come upon it, and
what it has asked for it has come upon. So it has ended once it has asked for every handle there is.
-/
namespace DescriptorExchange.Exchange

variable {x y z : Exchange} {id : CycleId} {asked : List RecordHandle}

/-- The handles that a call asks for on behalf of a cycle. -/
def asksFor (x : Exchange) (id : CycleId) (call : Call) : List RecordHandle :=
  ((x.requested call).filter fun f => f.cycle = id).map FetchRequest.handle

/-- The handles that a sequence of calls asks for on behalf of a cycle, oldest first. -/
def asks (x : Exchange) (id : CycleId) : List Call → List RecordHandle
  | [] => []
  | call :: rest => x.asksFor id call ++ (x.after call).asks id rest

/-- A call is a fetch that joins a cycle. -/
def Joins (x : Exchange) (id : CycleId) : Call → Prop
  | .fetch _ => ∃ c, x.cycle = some c ∧ c.id = id
  | _ => False

/-- No fetch among the calls joins a cycle. -/
def Unjoined (id : CycleId) : Exchange → List Call → Prop
  | _, [] => True
  | x, call :: rest => ¬ x.Joins id call ∧ Unjoined id (x.after call) rest

/-- What becomes of the running cycle in a number of rounds, in each of which the host is asked for a
record and answers as it likes by all it has been asked: what the cycle has changed once it is
complete, or the error it is aborted with, and nothing while it has not ended. -/
def converse (host : List RecordHandle → Except RequestError Bytes) :
    Nat → List RecordHandle → Exchange → Option (Except ExchangeError (Option ChangeNotice))
  | 0, _, _ => none
  | rounds + 1, asked, x =>
    match x.nextRequest with
    | (_, .error e) => some (.error e)
    | (_, .ok none) => none
    | (y, .ok (some f)) =>
      match y.receive f.cycle (host (asked ++ [f.handle])) with
      | (_, .error e) => some (.error e)
      | (_, .ok (.complete notice)) => some (.ok notice)
      | (z, .ok .proceed) => converse host rounds (asked ++ [f.handle]) z
      | (_, .ok .stale) => none

/-- A cycle that goes along the chain of a host with one handle in hand: it awaits the record, or it is
still to ask for it and has not done so before. -/
structure Roams (asked : List RecordHandle) (c : Cycle) : Prop where
  mode : c.mode = .chain
  seen : ∀ h ∈ asked, h ∈ c.seen
  inHand : (∃ h, c.inFlight = some h ∧ c.queue = []) ∨
    ∃ h, c.inFlight = none ∧ c.queue = [h] ∧ h ∉ asked

/-- What a cycle has asked for has no handle twice, and the cycle roams while it runs. -/
structure Roaming (id : CycleId) (asked : List RecordHandle) (x : Exchange) : Prop where
  begun : id < x.nextCycle
  nodup : asked.Nodup
  running : ∀ c, x.cycle = some c → c.id = id → Roams asked c

theorem Roams.length_queue {c : Cycle} (h : Roams asked c) : c.queue.length ≤ 1 := by
  rcases h.inHand with ⟨k, -, hqueue⟩ | ⟨k, -, hqueue, -⟩ <;> simp [hqueue]

/-- There are no more handles to ask for than there are handles. -/
theorem length_le_of_handles_nodup (h : asked.Nodup) : asked.length ≤ 2 ^ 32 := by
  have hnodup : (asked.map UInt32.toNat).Nodup :=
    List.Pairwise.map UInt32.toNat (fun a b hne heq => hne (UInt32.toNat_inj.mp heq)) h
  have hsub : asked.map UInt32.toNat ⊆ List.range (2 ^ 32) := fun n hn => by
    obtain ⟨k, -, rfl⟩ := List.mem_map.mp hn
    exact List.mem_range.mpr k.toNat_lt
  simpa using (List.Nodup.subperm hnodup hsub).length_le

/-- A cycle that is about to ask for another handle has not asked for all of them. -/
theorem Roams.length_asked {c : Cycle} (h : Roams asked c) (hnodup : asked.Nodup)
    (hflight : c.inFlight = none) : asked.length < 2 ^ 32 := by
  obtain ⟨k, -, -, hfresh⟩ := h.inHand.resolve_left (by simp [hflight])
  have hlonger : (k :: asked).Nodup := List.nodup_cons.mpr ⟨hfresh, hnodup⟩
  exact length_le_of_handles_nodup hlonger

/-- The next handle of the chain is one that has not been asked for, or the cycle ends. -/
theorem Roams.advance {c d : Cycle} {next : RecordHandle} (hd : x.cycle = some d)
    (hmode : d.mode = .chain) (hflight : d.inFlight = none) (hqueue : d.queue = [])
    (hseen : ∀ h ∈ asked, h ∈ d.seen) (hc : (x.advance next).1.cycle = some c) :
    Roams asked c := by
  rw [advance_eq hd] at hc
  by_cases hlast : next = RecordHandle.terminator
  · have hfollow : d.follow next = d := if_neg fun h => h.2 hlast
    rw [if_neg (fun h => h.1.2 hlast), hfollow] at hc
    simp [hqueue, Exchange.completed] at hc
  have hfollow : d.follow next =
      { d with seen := d.seen.insert next, queue := d.queue ++ [next] } := if_pos ⟨hmode, hlast⟩
  split_ifs at hc with hloop hempty
  · simp [Exchange.abort] at hc
  · simp [hfollow] at hempty
  · have hnew : next ∉ d.seen := fun hmem => hloop ⟨⟨hmode, hlast⟩, hmem⟩
    obtain rfl : d.follow next = c := Option.some.inj hc
    rw [hfollow]
    refine ⟨hmode, fun h hmem => ?_, .inr ⟨next, hflight, by simp [hqueue], fun hmem => ?_⟩⟩
    · exact Std.ExtTreeSet.mem_insert.mpr (.inr (hseen h hmem))
    · exact hnew (hseen next hmem)

namespace Roaming

/-- A cycle that does not run any longer has ended. -/
theorem of_over (h : Roaming id asked x) (hnext : x.nextCycle ≤ y.nextCycle)
    (hover : ∀ c, y.cycle = some c → c.id ≠ id) : Roaming id asked y :=
  ⟨Nat.lt_of_lt_of_le h.begun hnext, h.nodup, fun c hc hid => absurd hid (hover c hc)⟩

theorem of_idle (h : Roaming id asked x) (hnext : y.nextCycle = x.nextCycle)
    (hidle : y.cycle = none) : Roaming id asked y :=
  h.of_over (Nat.le_of_eq hnext.symm) fun c hc => by simp [hidle] at hc

theorem undisturbed (h : Roaming id asked x) (hxy : Undisturbed x y) : Roaming id asked y := by
  have hnext : y.nextCycle = x.nextCycle := congrArg Prod.fst hxy.fixed
  refine ⟨hnext ▸ h.begun, h.nodup, fun d hd hid => ?_⟩
  obtain ⟨c, hc, hagenda⟩ := hxy.of_cycle_eq_some hd
  simp only [Cycle.agenda, Prod.mk.injEq] at hagenda
  obtain ⟨hcid, hmode, hqueue, hflight, hseen⟩ := hagenda
  have hroams := h.running c hc (hcid.trans hid)
  exact ⟨hmode ▸ hroams.mode, hseen ▸ hroams.seen, hqueue ▸ hflight ▸ hroams.inHand⟩

/-- A resync sets out for the first record. -/
theorem beginResync (x : Exchange) : Roaming x.beginResync.2 [] x.beginResync.1 := by
  have hstarted : Roaming x.nextCycle [] (x.startCycle .chain [RecordHandle.terminator]).1 := by
    refine ⟨Nat.lt_succ_self x.nextCycle, .nil, fun c hc _ => ?_⟩
    obtain rfl := Option.some.inj hc
    exact ⟨rfl, by simp, .inr ⟨RecordHandle.terminator, rfl, rfl, by simp⟩⟩
  exact hstarted.undisturbed x.beginResync_undisturbed

/-- The cycle of a resync that begins later is another one. -/
theorem superseded (h : Roaming id asked x) : Roaming id asked x.beginResync.1 := by
  have hundisturbed := x.beginResync_undisturbed
  have hnext : x.beginResync.1.nextCycle = x.nextCycle + 1 := congrArg Prod.fst hundisturbed.fixed
  refine h.of_over (hnext ▸ Nat.le_succ _) fun c hc hid => ?_
  obtain ⟨d, hd, hagenda⟩ := hundisturbed.of_cycle_eq_some hc
  obtain rfl := Option.some.inj hd
  have hnew : x.nextCycle = c.id := congrArg Prod.fst hagenda
  exact Nat.lt_irrefl _ (hid ▸ hnew ▸ h.begun)

theorem beginFetch (h : Roaming id asked x) {handles : List RecordHandle}
    (hfree : ¬ x.Joins id (.fetch handles)) : Roaming id asked (x.beginFetch handles).1 := by
  rcases x.beginFetch_cases handles with ⟨c, hc, heq⟩ | ⟨-, heq⟩ | ⟨-, phase, heq⟩
  · rw [heq]
    refine h.of_over (Nat.le_refl _) fun d hd hid => ?_
    obtain rfl := Option.some.inj hd
    exact hfree ⟨c, hc, hid⟩
  · rw [heq]
    exact h
  · rw [heq]
    refine h.of_over (Nat.le_succ _) fun d hd hid => ?_
    obtain rfl := Option.some.inj hd
    exact absurd hid (Nat.ne_of_gt h.begun)

/-- The handle in hand is asked for, and for the first time. -/
theorem nextRequest (h : Roaming id asked x) :
    Roaming id (asked ++ x.asksFor id .request) x.nextRequest.1 := by
  rcases x.nextRequest_cases with heq | heq | ⟨c, k, rest, phase, hc, hflight, hqueue, heq⟩
  · have hnone : x.asksFor id .request = [] := by simp [asksFor, requested, heq]
    rw [hnone, List.append_nil, heq]
    exact h
  · have hnone : x.asksFor id .request = [] := by simp [asksFor, requested, heq]
    rw [hnone, List.append_nil, heq]
    exact h.of_idle rfl rfl
  · by_cases hid : c.id = id
    · have hasked : x.asksFor id .request = [k] := by simp [asksFor, requested, heq, hid]
      rw [hasked, heq]
      have hroams := h.running c hc hid
      obtain ⟨k', -, hhand, hfresh⟩ := hroams.inHand.resolve_left (by simp [hflight])
      obtain ⟨rfl, rfl⟩ : k = k' ∧ rest = [] := by simpa [hqueue] using hhand
      refine ⟨h.begun, ?_, fun d hd _ => ?_⟩
      · exact List.nodup_append.mpr ⟨h.nodup, List.pairwise_singleton .., by
          rintro a ha b hb rfl
          exact hfresh (List.mem_singleton.mp hb ▸ ha)⟩
      · obtain rfl := Option.some.inj hd
        refine ⟨hroams.mode, fun a ha => ?_, .inl ⟨k, rfl, rfl⟩⟩
        rw [List.mem_append, List.mem_singleton] at ha
        rw [Std.ExtTreeSet.mem_insert, Std.LawfulEqCmp.compare_eq_iff_eq, eq_comm]
        exact ha.symm.imp_right (hroams.seen a)
    · have hnone : x.asksFor id .request = [] := by simp [asksFor, requested, heq, hid]
      rw [hnone, List.append_nil, heq]
      refine h.of_over (Nat.le_refl _) fun d hd => ?_
      obtain rfl := Option.some.inj hd
      exact hid

/-- Whatever the host answers, the cycle has another handle in hand or ends. -/
theorem receive (h : Roaming id asked x) (cycle : CycleId) (answer : Except RequestError Bytes) :
    Roaming id asked (x.receive cycle answer).1 := by
  obtain ⟨y, result, hreceive⟩ : ∃ y result, x.receive cycle answer = (y, result) := ⟨_, _, rfl⟩
  have hmoves := receive_proceeds hreceive
  rw [hreceive]
  rcases receive_cases hreceive with ⟨rfl, -⟩ | ⟨c, k, hc, -, hflight, hcases⟩
  · exact h.undisturbed ⟨rfl, rfl⟩
  refine ⟨Nat.lt_of_lt_of_le h.begun hmoves.next, h.nodup, fun d hd hid => ?_⟩
  rcases hcases with ⟨e, -, rfl, -⟩ | ⟨record, next, -, ⟨w, e, -, rfl, -⟩ | ⟨w, himport, hadvance⟩⟩
  · simp [Exchange.abort] at hd
  · simp [Exchange.abort] at hd
  · have hcid : c.id = id := by
      rcases hmoves.cycle d hd with ⟨hle, -⟩ | ⟨c', hc', hdc, -⟩
      · exact absurd h.begun (Nat.not_lt.mpr (hid ▸ hle))
      · obtain rfl := Option.some.inj (hc.symm.trans hc')
        exact hdc.symm.trans hid
    have hroams := h.running c hc hcid
    obtain ⟨-, -, hqueue⟩ := hroams.inHand.resolve_right (by simp [hflight])
    obtain ⟨e, he, -, hmode, hequeue, heflight, heseen⟩ :=
      importRecord_cycle (x := x.answered c) rfl record
    rw [himport] at he
    have hy : (w.advance next).1.cycle = some d := by rw [hadvance]; exact hd
    exact Roams.advance he (hmode.trans hroams.mode) heflight (hequeue.trans hqueue)
      (fun a ha => (heseen a).mpr (.inl (hroams.seen a ha))) hy

/-- Every call that does not join the cycle leaves it roaming. -/
theorem after (h : Roaming id asked x) {call : Call} (hfree : ¬ x.Joins id call) :
    Roaming id (asked ++ x.asksFor id call) (x.after call) := by
  cases call with
  | request => exact h.nextRequest
  | resync => exact (List.append_nil asked).symm ▸ h.superseded
  | fetch handles => exact (List.append_nil asked).symm ▸ h.beginFetch hfree
  | receive cycle answer => exact (List.append_nil asked).symm ▸ h.receive cycle answer
  | forget handles =>
    exact (List.append_nil asked).symm ▸ h.undisturbed (forget_aside x handles).undisturbed
  | hostDown =>
    exact (List.append_nil asked).symm ▸ h.undisturbed x.invalidateTermini_aside.undisturbed
  | link up => exact (List.append_nil asked).symm ▸ ⟨h.begun, h.nodup, h.running⟩

/-- And so does every sequence of such calls. -/
theorem afterAll {calls : List Call} (h : Roaming id asked x) (hfree : Unjoined id x calls) :
    Roaming id (asked ++ x.asks id calls) (x.afterAll calls) := by
  induction calls generalizing x asked with
  | nil => exact (List.append_nil asked).symm ▸ h
  | cons call rest ih =>
    have hrest := ih (h.after hfree.1) hfree.2
    rwa [List.append_assoc] at hrest

/-- A cycle that has as many rounds left as there are handles it has not asked for ends in them. -/
theorem converse_ends {host : List RecordHandle → Except RequestError Bytes} {rounds : Nat} {c : Cycle}
    (h : Roaming id asked x) (hc : x.cycle = some c) (hid : c.id = id) (hflight : c.inFlight = none)
    (hrounds : 2 ^ 32 ≤ asked.length + rounds) : (converse host rounds asked x).isSome := by
  induction rounds generalizing x asked c with
  | zero =>
    have hlt := (h.running c hc hid).length_asked h.nodup hflight
    omega
  | succ rounds ih =>
    obtain ⟨k, -, hqueue, -⟩ := (h.running c hc hid).inHand.resolve_left (by simp [hflight])
    have hasked := h.nextRequest
    unfold converse
    cases hup : x.hostUp with
    | false =>
      have hdown : x.nextRequest = (x.abort .hostDown, .error .hostDown) := by
        simp [Exchange.nextRequest, hc, hup]
      rw [hdown]
      rfl
    | true =>
      obtain ⟨phase, heq⟩ := nextRequest_of_queue hup hc hflight hqueue
      have hone : x.asksFor id .request = [k] := by simp [asksFor, requested, heq, hid]
      rw [hone] at hasked
      have hawaited : x.nextRequest.1.awaited? c.id = some k := by
        rw [heq]
        exact awaited?_eq_some.mpr ⟨_, rfl, rfl, rfl⟩
      have hstale := receive_ne_stale hawaited (host (asked ++ [k]))
      have hfollowed := hasked.receive c.id (host (asked ++ [k]))
      rw [heq] at hstale hfollowed ⊢
      dsimp only at hstale hfollowed ⊢
      split
      next => rfl
      next => rfl
      next z hreceive =>
        obtain ⟨-, ⟨-, hgoes⟩ | ⟨-, d, hd, hdid, hidle, -⟩⟩ := receive_goes_on
          (c := { c with queue := [], inFlight := some k, seen := c.seen.insert k }) rfl rfl hreceive
        · exact absurd rfl hgoes
        · rw [hreceive] at hfollowed
          have hfewer : 2 ^ 32 ≤ (asked ++ [k]).length + rounds := by
            rw [List.length_append, List.length_singleton]
            omega
          exact ih hfollowed hd (hdid.trans hid) hidle hfewer
      next hreceive =>
        rw [hreceive] at hstale
        exact absurd rfl hstale

end Roaming

/-- A resync that no fetch joins asks for no handle twice and never has more than one of them queued,
whatever else is called and whatever the host answers. As long as it runs and awaits no answer there is
a handle it has not asked for. Left to itself it is complete or aborted after as many rounds as there
are handles, whatever the host answers in each of them. -/
theorem resync_ends (x : Exchange) (calls : List Call)
    (hfree : Unjoined x.beginResync.2 x.beginResync.1 calls) :
    let begun := x.beginResync.1
    let id := x.beginResync.2
    (begun.asks id calls).Nodup ∧ (begun.asks id calls).length ≤ 2 ^ 32 ∧
      (∀ c, (begun.afterAll calls).cycle = some c → c.id = id →
        c.queue.length ≤ 1 ∧ (c.inFlight = none → (begun.asks id calls).length < 2 ^ 32)) ∧
      ∀ host rounds, 2 ^ 32 ≤ rounds → (converse host rounds [] begun).isSome := by
  intro begun id
  have hbegun : Roaming id [] begun := Roaming.beginResync x
  have hafter : Roaming id (begun.asks id calls) (begun.afterAll calls) := hbegun.afterAll hfree
  refine ⟨hafter.nodup, length_le_of_handles_nodup hafter.nodup, fun c hc hid => ?_,
    fun host rounds hrounds => ?_⟩
  · have hroams := hafter.running c hc hid
    exact ⟨hroams.length_queue, hroams.length_asked hafter.nodup⟩
  · obtain ⟨c, hc, hagenda⟩ := x.beginResync_undisturbed.cycle_eq_some rfl
    have hid : c.id = id := congrArg Prod.fst hagenda
    have hidle : c.inFlight = none := congrArg (fun a => a.2.2.2.1) hagenda
    exact hbegun.converse_ends hc hid hidle (by simpa using hrounds)

/-- A host that names the same record as the next one in every answer. The resync asks for it once and
is aborted when it comes upon it again. -/
theorem resync_ends_in_loop :
    let sensor : StateSensor := ⟨3, 1, ⟨1, 1, 1⟩, 0, false, []⟩
    let answer := (RecordResponse.single 6 (encodeRecord 5 sensor)).encode
    let calls : List Call := [.request, .receive 0 (.ok answer), .request, .receive 0 (.ok answer)]
    let begun := (default : Exchange).beginResync.1
    Unjoined 0 begun calls ∧ begun.asks 0 calls = [RecordHandle.terminator, 6] ∧
      converse (fun _ => .ok answer) 2 [] begun = some (.error (.chainLoop 6)) ∧
      (begun.asks 0 calls).Nodup ∧ (converse (fun _ => .ok answer) (2 ^ 32) [] begun).isSome := by
  intro sensor answer calls begun
  have hfree : Unjoined 0 begun calls := ⟨id, id, id, id, trivial⟩
  have hends := resync_ends default calls hfree
  exact ⟨hfree, by decide +kernel, by decide +kernel, hends.1, hends.2.2.2 _ _ (Nat.le_refl _)⟩

end DescriptorExchange.Exchange
