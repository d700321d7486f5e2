import DescriptorExchange.Proofs.Exchange.Agenda
import Mathlib.Data.List.Basic
import Mathlib.Data.List.TakeDrop

/-!
A resync against a host whose records form a chain. Left to itself it asks for the records one after
another and completes. A fetch that joins it has its records asked for as well, and each of them is
taken for a place in the chain, from which the resync goes on a second time. The first handle it then
comes upon twice ends it, so that a resync which a fetch has added such a record to never completes.
-/
namespace DescriptorExchange

/-- The handles of a chain of records. The first record is also the one under the terminator. -/
structure Chain where
  first : RecordHandle
  rest : List RecordHandle
  nodup : (first :: rest).Nodup
  proper : RecordHandle.terminator ∉ first :: rest

namespace Chain

instance : Membership RecordHandle Chain := ⟨fun chain h => h ∈ chain.first :: chain.rest⟩

/-- What a resync asks for. -/
def walk (chain : Chain) : List RecordHandle := RecordHandle.terminator :: chain.rest

/-- How many records come before the one under a handle. -/
def place (chain : Chain) (h : RecordHandle) : Nat :=
  if h = RecordHandle.terminator then 0 else (chain.first :: chain.rest).idxOf h

/-- The handle after a handle. -/
def next (chain : Chain) (h : RecordHandle) : RecordHandle :=
  (chain.rest[chain.place h]?).getD RecordHandle.terminator

/-- The handle that the record under a handle carries. -/
def own (chain : Chain) (h : RecordHandle) : RecordHandle :=
  if h = RecordHandle.terminator then chain.first else h

/-- The record under a handle is not the last one. -/
def LeadsOn (chain : Chain) (h : RecordHandle) : Prop := chain.place h < chain.rest.length

instance (chain : Chain) (h : RecordHandle) : Decidable (chain.LeadsOn h) :=
  inferInstanceAs (Decidable (_ < _))

variable {chain : Chain} {h g : RecordHandle}

theorem mem_iff : h ∈ chain ↔ h ∈ chain.first :: chain.rest := Iff.rfl

theorem ne_terminator (h : g ∈ chain) : g ≠ RecordHandle.terminator := fun heq =>
  chain.proper (heq ▸ h)

theorem place_own (g : RecordHandle) : chain.place (chain.own g) = chain.place g := by
  unfold own
  split_ifs with hg
  · have hfirst : chain.first ≠ RecordHandle.terminator := ne_terminator List.mem_cons_self
    simp [place, hg, hfirst]
  · rfl

theorem place_inj (hg : g ∈ chain) (hh : h ∈ chain) (heq : chain.place g = chain.place h) :
    g = h := by
  simp only [place, if_neg (ne_terminator hg), if_neg (ne_terminator hh)] at heq
  exact (List.idxOf_inj hg).mp heq

theorem place_rest {i : Nat} (hi : i < chain.rest.length) :
    chain.rest[i] ∈ chain ∧ chain.place chain.rest[i] = i + 1 := by
  have hmem : chain.rest[i] ∈ chain := List.mem_cons_of_mem _ (List.getElem_mem hi)
  refine ⟨hmem, ?_⟩
  rw [place, if_neg (ne_terminator hmem)]
  have hlt : i + 1 < (chain.first :: chain.rest).length := by simpa using hi
  exact chain.nodup.idxOf_getElem (i + 1) hlt

theorem place_le (hg : g ∈ chain) : chain.place g ≤ chain.rest.length := by
  rw [place, if_neg (ne_terminator hg)]
  exact Nat.le_of_lt_succ (List.idxOf_lt_length_of_mem hg)

/-- A record that is not the last one leads to the record after it. -/
theorem next_of_leadsOn (h : chain.LeadsOn g) : chain.next g ∈ chain ∧
    chain.place (chain.next g) = chain.place g + 1 ∧
    chain.walk[chain.place g + 1]? = some (chain.next g) := by
  have hget : chain.rest[chain.place g]? = some chain.rest[chain.place g] :=
    List.getElem?_eq_getElem h
  have hnext : chain.next g = chain.rest[chain.place g] := by
    rw [next, hget]
    rfl
  rw [hnext, walk, List.getElem?_cons_succ]
  exact ⟨(place_rest h).1, (place_rest h).2, hget⟩

theorem next_of_last (h : ¬ chain.LeadsOn g) : chain.next g = RecordHandle.terminator := by
  rw [next, List.getElem?_eq_none (Nat.le_of_not_lt h)]
  rfl

theorem place_walk {i : Nat} (h : chain.walk[i]? = some g) : chain.place g = i := by
  cases i with
  | zero =>
    obtain rfl : RecordHandle.terminator = g := by simpa [walk] using h
    rfl
  | succ i =>
    obtain ⟨hi, rfl⟩ := List.getElem?_eq_some_iff.mp (by simpa [walk] using h)
    exact (place_rest hi).2

end Chain

/-- A host answers every request for a record of the chain with the record and the handle after it. -/
structure Chain.Served (chain : Chain) (host : RecordHandle → Except RequestError Bytes) :
    Prop where
  answer : ∀ h, h = RecordHandle.terminator ∨ h ∈ chain → ∃ record,
    Exchange.readAnswer h (host h) = .ok (record, chain.next h) ∧
    ∀ header body, RecordHeader.split record = .ok (header, body) → header.handle = chain.own h

/-- The handles that a fetch adds to a cycle it joins. -/
def Cycle.fresh (c : Cycle) (handles : List RecordHandle) : List RecordHandle :=
  (handles.filter (· ≠ RecordHandle.terminator)).filter fun h => h ∉ c.queue ∧ c.inFlight ≠ some h

namespace Exchange

/-- A cycle under way against a host that always answers a request for a record in the same way,
with the handles it has processed and those that fetches of records of the chain have added. Answers
that are not awaited are dropped. -/
inductive Course (host : RecordHandle → Except RequestError Bytes) (chain : Chain) (id : CycleId)
    (x : Exchange) : Exchange → List RecordHandle → List RecordHandle → Prop
  | refl : Course host chain id x x [] []
  | request {y : Exchange} {done added : List RecordHandle} {asked : Option FetchRequest}
      (h : Course host chain id x y done added) (hrequest : y.nextRequest.2 = .ok asked) :
      Course host chain id x y.nextRequest.1 done added
  | answer {y : Exchange} {done added : List RecordHandle} {handle : RecordHandle}
      (h : Course host chain id x y done added) (hawaited : y.awaited? id = some handle)
      (hreceive : (y.receive id (host handle)).2 = .ok .proceed) :
      Course host chain id x (y.receive id (host handle)).1 (done ++ [handle]) added
  | drop {y : Exchange} {done added : List RecordHandle} {cycle : CycleId}
      {answer : Except RequestError Bytes} (h : Course host chain id x y done added)
      (hunawaited : y.awaited? cycle = none) :
      Course host chain id x (y.receive cycle answer).1 done added
  | join {y : Exchange} {c : Cycle} {done added handles : List RecordHandle}
      (h : Course host chain id x y done added) (hc : y.cycle = some c)
      (hhandles : ∀ h ∈ handles, h ∈ chain) :
      Course host chain id x (y.beginFetch handles).1 done (added ++ c.fresh handles)

end Exchange

namespace Chain

variable {chain : Chain} {c d : Cycle} {h g : RecordHandle} {done handles : List RecordHandle}

/-- Nothing is pending but the next record of the walk, and nothing beyond it has been seen. -/
structure OnTrack (chain : Chain) (c : Cycle) (done : List RecordHandle) : Prop where
  pending : ∃ h, chain.walk[done.length]? = some h ∧ c.pending = [h]
  taken : done = chain.walk.take done.length
  seen : ∀ g ∈ c.seen, g ∈ chain → chain.place g ≤ done.length

/-- The resync is still on its way through the chain, or has seen the end of it. -/
def Reaches (chain : Chain) (c : Cycle) : Prop :=
  (∃ h ∈ c.pending, chain.LeadsOn h) ∨ ∃ g ∈ c.seen, g ∈ chain ∧ chain.place g = chain.rest.length

/-- The way from a pending record leads to a handle that has been seen, or meets another such way. -/
def Loops (chain : Chain) (c : Cycle) : Prop :=
  (∃ h ∈ c.pending, ∃ g ∈ c.seen, g ∈ chain ∧ chain.place h < chain.place g) ∨
    2 ≤ c.pending.countP fun h => chain.LeadsOn h

/-- What becomes of a cycle when the record under the handle it awaits has been imported. -/
structure Heard (chain : Chain) (c d : Cycle) (h : RecordHandle) : Prop where
  awaited : c.inFlight = some h
  id : d.id = c.id
  mode : d.mode = c.mode
  queue : d.queue = c.queue
  inFlight : d.inFlight = none
  kept : ∀ g ∈ c.seen, g ∈ d.seen
  only : ∀ g ∈ d.seen, g ∈ c.seen ∨ g = chain.own h

theorem Heard.pending (hcd : chain.Heard c d h) : c.pending = h :: d.queue := by
  simp [Cycle.pending, hcd.awaited, hcd.queue]

/-- The cycle once it has gone on to the handle after the one it has heard of. -/
def goOn (chain : Chain) (d : Cycle) (h : RecordHandle) : Cycle :=
  if chain.LeadsOn h then
    { d with seen := d.seen.insert (chain.next h), queue := d.queue ++ [chain.next h] }
  else d

theorem follow_next (hmode : d.mode = .chain) (h : RecordHandle) :
    d.follow (chain.next h) = chain.goOn d h := by
  unfold Cycle.follow goOn
  by_cases hleads : chain.LeadsOn h
  · have hne := ne_terminator (next_of_leadsOn hleads).1
    rw [if_pos ⟨hmode, hne⟩, if_pos hleads]
  · rw [if_neg fun hf => hf.2 (next_of_last hleads), if_neg hleads]

theorem pending_goOn (hcd : chain.Heard c d h) : (chain.goOn d h).pending =
    d.queue ++ if chain.LeadsOn h then [chain.next h] else [] := by
  unfold goOn
  split_ifs <;> simp [Cycle.pending, hcd.inFlight]

theorem mem_seen_goOn : g ∈ (chain.goOn d h).seen ↔
    g ∈ d.seen ∨ chain.LeadsOn h ∧ g = chain.next h := by
  unfold goOn
  split_ifs with hleads
  · simp only [Std.ExtTreeSet.mem_insert, Std.LawfulEqCmp.compare_eq_iff_eq, hleads, true_and]
    rw [or_comm, eq_comm]
  · simp [hleads]

section ask

variable {rest : List RecordHandle}

/-- The cycle when it asks for the first handle of its queue. -/
theorem pending_ask (hflight : c.inFlight = none) (hqueue : c.queue = h :: rest) :
    Cycle.pending { c with queue := rest, inFlight := some h, seen := c.seen.insert h } =
      c.pending := by
  simp [Cycle.pending, hflight, hqueue]

theorem OnTrack.ask (hc : chain.OnTrack c done) (hflight : c.inFlight = none)
    (hqueue : c.queue = h :: rest) :
    chain.OnTrack { c with queue := rest, inFlight := some h, seen := c.seen.insert h } done := by
  refine ⟨?_, hc.taken, fun g hg hmem => ?_⟩
  · rw [pending_ask hflight hqueue]
    exact hc.pending
  · rcases Std.ExtTreeSet.mem_insert.mp hg with heq | hg
    · obtain ⟨head, hwalk, hpending⟩ := hc.pending
      have hhead : h = head := by simp_all [Cycle.pending]
      obtain rfl : h = g := by simpa using heq
      exact Nat.le_of_eq (place_walk (hhead ▸ hwalk))
    · exact hc.seen g hg hmem

theorem Reaches.ask (hc : chain.Reaches c) (hflight : c.inFlight = none)
    (hqueue : c.queue = h :: rest) :
    chain.Reaches { c with queue := rest, inFlight := some h, seen := c.seen.insert h } := by
  unfold Reaches
  rw [pending_ask hflight hqueue]
  exact hc.imp_right fun ⟨g, hg, hlast⟩ => ⟨g, Std.ExtTreeSet.mem_insert.mpr (.inr hg), hlast⟩

theorem Loops.ask (hc : chain.Loops c) (hflight : c.inFlight = none)
    (hqueue : c.queue = h :: rest) :
    chain.Loops { c with queue := rest, inFlight := some h, seen := c.seen.insert h } := by
  unfold Loops
  rw [pending_ask hflight hqueue]
  exact hc.imp_left fun ⟨k, hk, g, hg, hlt⟩ =>
    ⟨k, hk, g, Std.ExtTreeSet.mem_insert.mpr (.inr hg), hlt⟩

end ask

section hear

/-- On its track a cycle hears of the next record of the walk, which leads to none it has seen. -/
theorem OnTrack.hear (hc : chain.OnTrack c done) (hcd : chain.Heard c d h) :
    chain.walk[done.length]? = some h ∧ d.queue = [] ∧ chain.place h = done.length ∧
      done ++ [h] = chain.walk.take (done.length + 1) ∧
      (chain.LeadsOn h → chain.next h ∉ d.seen ∧ chain.OnTrack (chain.goOn d h) (done ++ [h])) := by
  obtain ⟨head, hwalk, hpending⟩ := hc.pending
  rw [hcd.pending, List.cons.injEq] at hpending
  obtain ⟨rfl, hempty⟩ := hpending
  have hplace := place_walk hwalk
  have htaken : done ++ [h] = chain.walk.take (done.length + 1) := by
    rw [List.take_add_one, ← hc.taken, hwalk]
    rfl
  have hseen (g : RecordHandle) (hg : g ∈ d.seen) (hmem : g ∈ chain) :
      chain.place g ≤ done.length := by
    rcases hcd.only g hg with hg | rfl
    · exact hc.seen g hg hmem
    · exact Nat.le_of_eq ((place_own h).trans hplace)
  refine ⟨hwalk, hempty, hplace, htaken, fun hleads => ?_⟩
  obtain ⟨hnext, hplace', hwalk'⟩ := next_of_leadsOn hleads
  rw [hplace] at hplace' hwalk'
  refine ⟨fun hmem => ?_, ⟨chain.next h, by simpa using hwalk', ?_⟩, ?_, fun g hg hmem => ?_⟩
  · have hle := hseen _ hmem hnext
    omega
  · rw [pending_goOn hcd, if_pos hleads, hempty]
    rfl
  · simpa using htaken
  · rw [List.length_append, List.length_singleton]
    rcases mem_seen_goOn.mp hg with hg | ⟨-, rfl⟩
    · exact Nat.le_succ_of_le (hseen g hg hmem)
    · exact Nat.le_of_eq hplace'

theorem Reaches.hear (hc : chain.Reaches c) (hcd : chain.Heard c d h) :
    chain.Reaches (chain.goOn d h) := by
  unfold Reaches at hc ⊢
  simp only [pending_goOn hcd, mem_seen_goOn]
  rw [hcd.pending] at hc
  rcases hc with ⟨k, hk, hleads⟩ | ⟨g, hg, hlast⟩
  · rcases List.mem_cons.mp hk with rfl | hk
    · obtain ⟨hnext, hplace, -⟩ := next_of_leadsOn hleads
      by_cases hnl : chain.LeadsOn (chain.next k)
      · exact .inl ⟨chain.next k, by simp [hleads], hnl⟩
      · have hle := place_le hnext
        exact .inr ⟨chain.next k, .inr ⟨hleads, rfl⟩, hnext, by unfold LeadsOn at hnl; omega⟩
    · exact .inl ⟨k, List.mem_append_left _ hk, hleads⟩
  · exact .inr ⟨g, .inl (hcd.kept g hg), hlast⟩

/-- A cycle that loops has something left to ask for, and goes on looping unless it comes upon a
handle it has seen. -/
theorem Loops.hear (hc : chain.Loops c) (hcd : chain.Heard c d h)
    (hnew : chain.LeadsOn h → chain.next h ∉ d.seen) :
    chain.Loops (chain.goOn d h) ∧ (chain.goOn d h).queue ≠ [] := by
  have hqueue : (chain.goOn d h).queue = (chain.goOn d h).pending := by
    unfold goOn
    split_ifs <;> simp [Cycle.pending, hcd.inFlight]
  suffices hloops : chain.Loops (chain.goOn d h) by
    refine ⟨hloops, fun hempty => ?_⟩
    rw [hqueue] at hempty
    simp [Loops, hempty] at hloops
  unfold Loops at hc ⊢
  simp only [pending_goOn hcd, mem_seen_goOn]
  rw [hcd.pending] at hc
  rcases hc with ⟨k, hk, g, hg, hmem, hlt⟩ | hcount
  · rcases List.mem_cons.mp hk with rfl | hk
    · have hleads : chain.LeadsOn k := Nat.lt_of_lt_of_le hlt (place_le hmem)
      obtain ⟨hnext, hplace, -⟩ := next_of_leadsOn hleads
      have hne : chain.place g ≠ chain.place (chain.next k) := fun heq =>
        hnew hleads (place_inj hmem hnext heq ▸ hcd.kept g hg)
      exact .inl ⟨chain.next k, by simp [hleads], g, .inl (hcd.kept g hg), hmem, by omega⟩
    · exact .inl ⟨k, List.mem_append_left _ hk, g, .inl (hcd.kept g hg), hmem, hlt⟩
  · rw [List.countP_cons] at hcount
    by_cases hleads : chain.LeadsOn h
    · obtain ⟨hnext, hplace, -⟩ := next_of_leadsOn hleads
      simp only [hleads, decide_true, if_true] at hcount
      by_cases hnl : chain.LeadsOn (chain.next h)
      · right
        rw [if_pos hleads, List.countP_append, List.countP_singleton]
        simp only [hnl, decide_true, if_true]
        exact hcount
      · -- the way has come to the end of the chain, which the other one is still to reach
        obtain ⟨k, hk, hkl⟩ :=
          List.countP_pos_iff.mp (Nat.lt_of_succ_le (Nat.le_of_succ_le_succ hcount))
        have hle := place_le hnext
        have hkl : chain.place k < chain.rest.length := of_decide_eq_true hkl
        exact .inl ⟨k, List.mem_append_left _ hk, chain.next h, .inr ⟨hleads, rfl⟩, hnext,
          by unfold LeadsOn at hnl; omega⟩
    · right
      simp only [hleads, decide_false, Bool.false_eq_true, if_false] at hcount ⊢
      simpa using hcount

end hear

section join

/-- The cycle once a fetch has joined it. -/
theorem pending_join (c : Cycle) (handles : List RecordHandle) :
    Cycle.pending { c with queue := c.queue ++ c.fresh handles } =
      c.pending ++ c.fresh handles := by
  simp [Cycle.pending]

theorem Reaches.join (hc : chain.Reaches c) (handles : List RecordHandle) :
    chain.Reaches { c with queue := c.queue ++ c.fresh handles } := by
  unfold Reaches
  rw [pending_join]
  exact hc.imp_left fun ⟨h, hh, hleads⟩ => ⟨h, List.mem_append_left _ hh, hleads⟩

theorem Loops.join (hc : chain.Loops c) (handles : List RecordHandle) :
    chain.Loops { c with queue := c.queue ++ c.fresh handles } := by
  unfold Loops
  rw [pending_join, List.countP_append]
  rcases hc with ⟨h, hh, hseen⟩ | hcount
  · exact .inl ⟨h, List.mem_append_left _ hh, hseen⟩
  · exact .inr (Nat.le_add_right_of_le hcount)

/-- A fetch that adds a record which is not the last one makes the cycle loop. -/
theorem Reaches.loops_of_join (hc : chain.Reaches c) (hg : g ∈ c.fresh handles)
    (hleads : chain.LeadsOn g) :
    chain.Loops { c with queue := c.queue ++ c.fresh handles } := by
  unfold Loops
  rw [pending_join, List.countP_append]
  have hadded : 0 < (c.fresh handles).countP fun h => chain.LeadsOn h :=
    List.countP_pos_iff.mpr ⟨g, hg, by simpa using hleads⟩
  rcases hc with ⟨h, hh, hh'⟩ | ⟨e, he, hmem, hlast⟩
  · have hold : 0 < c.pending.countP fun h => chain.LeadsOn h :=
      List.countP_pos_iff.mpr ⟨h, hh, by simpa using hh'⟩
    exact .inr (by omega)
  · exact .inl ⟨g, List.mem_append_right _ hg, e, he, hmem, hlast ▸ hleads⟩

end join

end Chain

namespace Exchange

variable {host : RecordHandle → Except RequestError Bytes} {chain : Chain} {id : CycleId}
  {x y z : Exchange} {c : Cycle} {h : RecordHandle} {done added handles : List RecordHandle}
  {result : Except ExchangeError FetchOutcome}

/-- The answer of the host is imported, and the cycle goes on from it. -/
theorem receive_heard (hserved : chain.Served host) (hc : y.cycle = some c)
    (hflight : c.inFlight = some h) (hknown : h = RecordHandle.terminator ∨ h ∈ chain)
    (hreceive : y.receive c.id (host h) = (z, result)) (hfatal : ∀ e, result ≠ .error (.fatal e)) :
    ∃ (d : Cycle) (w : Exchange), chain.Heard c d h ∧ w.cycle = some d ∧ w.hostUp = y.hostUp ∧
      w.advance (chain.next h) = (z, result) := by
  obtain ⟨record, hread, hown⟩ := hserved.answer h hknown
  obtain ⟨d, hd, hid, hmode, hqueue, hinFlight, hseen⟩ :=
    importRecord_cycle (x := y.answered c) rfl record
  have hfixed := (importRecord_undisturbed (y.answered c) record).fixed
  cases himport : (y.answered c).importRecord record with
  | mk w outcome =>
  rw [himport] at hd hfixed
  cases outcome with
  | error e =>
    unfold answered at himport
    simp only [receive, hc, hflight, hread, himport, ne_eq, not_true_eq_false, if_false,
      Prod.mk.injEq] at hreceive
    exact absurd hreceive.2.symm (hfatal e)
  | ok =>
    rw [receive_of_import hc hflight hread himport] at hreceive
    refine ⟨d, w, ⟨hflight, hid, hmode, hqueue, hinFlight, fun g hg => (hseen g).mpr (.inl hg),
      fun g hg => ((hseen g).mp hg).imp_right ?_⟩, hd, ?_, hreceive⟩
    · rintro ⟨header, body, hsplit, rfl⟩
      exact hown header body hsplit
    · refine (congrArg (·.2.2) hfixed).trans ?_
      unfold noted
      split <;> rfl

/-- From the record under a handle the cycle comes upon a handle it has seen, completes, or goes
on. -/
theorem advance_next {d : Cycle} (hd : y.cycle = some d) (hmode : d.mode = .chain)
    (hadvance : y.advance (chain.next h) = (z, result)) :
    (∃ g, result = .error (.chainLoop g) ∧ chain.LeadsOn h ∧ chain.next h ∈ d.seen) ∨
    (chain.LeadsOn h → chain.next h ∉ d.seen) ∧
      ((∃ notice, result = .ok (.complete notice) ∧ (chain.goOn d h).queue = []) ∨
        (chain.goOn d h).queue ≠ [] ∧ result = .ok .proceed ∧
          z = { y with cycle := some (chain.goOn d h) }) := by
  rw [advance_eq hd, Chain.follow_next hmode] at hadvance
  split_ifs at hadvance with hloop hempty
  · obtain ⟨-, rfl⟩ := Prod.mk.inj hadvance
    refine .inl ⟨_, rfl, ?_, hloop.2⟩
    exact not_imp_comm.mp Chain.next_of_last hloop.1.2
  all_goals
    obtain ⟨rfl, rfl⟩ := Prod.mk.inj hadvance
    refine .inr ⟨fun hleads hmem => ?_, ?_⟩
    · exact hloop ⟨⟨hmode, Chain.ne_terminator (Chain.next_of_leadsOn hleads).1⟩, hmem⟩
  · exact .inl ⟨_, rfl, List.isEmpty_iff.mp hempty⟩
  · exact .inr ⟨fun hq => hempty (List.isEmpty_iff.mpr hq), rfl, rfl⟩

/-- A resync under way along a chain. -/
structure Underway (chain : Chain) (id : CycleId) (y : Exchange) (done added : List RecordHandle)
    (c : Cycle) : Prop where
  cycle : y.cycle = some c
  id : c.id = id
  mode : c.mode = .chain
  up : y.hostUp = true
  known : ∀ h ∈ c.pending, h = RecordHandle.terminator ∨ h ∈ chain
  track : added = [] → chain.OnTrack c done
  reaches : chain.rest ≠ [] → chain.Reaches c
  loops : (∃ g ∈ added, chain.LeadsOn g) → chain.Loops c

theorem leadsOn_rest_ne {g : RecordHandle} (hleads : chain.LeadsOn g) : chain.rest ≠ [] := by
  rintro hnil
  simp [Chain.LeadsOn, hnil] at hleads

theorem beginResync_underway (chain : Chain) (hup : x.hostUp = true) :
    ∃ c, Underway chain x.beginResync.2 x.beginResync.1 [] [] c := by
  have hbegun := x.beginResync_undisturbed
  obtain ⟨c, hc, hagenda⟩ := hbegun.cycle_eq_some rfl
  simp only [Cycle.agenda, Prod.mk.injEq] at hagenda
  obtain ⟨hid, hmode, hqueue, hflight, hseen⟩ := hagenda
  have hpending : c.pending = [RecordHandle.terminator] := by simp [Cycle.pending, hflight, hqueue]
  refine ⟨c, hc, hid, hmode, (congrArg (·.2.2) hbegun.fixed).trans hup, ?_, fun _ => ?_,
    fun hne => ?_, by simp⟩
  · simp [hpending]
  · exact ⟨⟨_, rfl, hpending⟩, rfl, by simp [hseen]⟩
  · exact .inl ⟨RecordHandle.terminator, by simp [hpending], List.length_pos_iff.mpr hne⟩

namespace Underway

theorem request {asked : Option FetchRequest} (hy : Underway chain id y done added c)
    (hrequest : y.nextRequest = (z, .ok asked)) : ∃ d, Underway chain id z done added d := by
  rcases y.nextRequest_cases with heq | heq | ⟨d, handle, rest, phase, hd, hflight, hqueue, heq⟩
  · obtain ⟨rfl, -⟩ := Prod.mk.inj (hrequest.symm.trans heq)
    exact ⟨c, hy⟩
  · simp [heq] at hrequest
  · obtain ⟨rfl, -⟩ := Prod.mk.inj (hrequest.symm.trans heq)
    obtain rfl := Option.some.inj (hy.cycle.symm.trans hd)
    refine ⟨_, rfl, hy.id, hy.mode, hy.up, ?_, fun h => (hy.track h).ask hflight hqueue,
      fun h => (hy.reaches h).ask hflight hqueue, fun h => (hy.loops h).ask hflight hqueue⟩
    rw [Chain.pending_ask hflight hqueue]
    exact hy.known

theorem join (hy : Underway chain id y done added c) (hhandles : ∀ h ∈ handles, h ∈ chain) :
    ∃ d, Underway chain id (y.beginFetch handles).1 done (added ++ c.fresh handles) d := by
  rcases y.beginFetch_cases handles with ⟨d, hd, heq⟩ | ⟨hnone, -⟩ | ⟨hnone, -⟩
  · obtain rfl := Option.some.inj (hy.cycle.symm.trans hd)
    rw [heq]
    refine ⟨_, rfl, hy.id, hy.mode, hy.up, fun h hh => ?_, fun hnil => ?_,
      fun hne => (hy.reaches hne).join handles, ?_⟩
    · rw [← Cycle.fresh, Chain.pending_join, List.mem_append] at hh
      refine hh.elim (hy.known h) fun hh => .inr (hhandles h ?_)
      exact (List.mem_filter.mp (List.mem_filter.mp hh).1).1
    · obtain ⟨hadded, hfresh⟩ := List.append_eq_nil_iff.mp hnil
      rw [← Cycle.fresh, hfresh, List.append_nil]
      exact hy.track hadded
    · rintro ⟨g, hg, hleads⟩
      rcases List.mem_append.mp hg with hg | hg
      · exact (hy.loops ⟨g, hg, hleads⟩).join handles
      · exact (hy.reaches (leadsOn_rest_ne hleads)).loops_of_join hg hleads
  · simp [hy.cycle] at hnone
  · simp [hy.cycle] at hnone

theorem heard (hserved : chain.Served host) (hy : Underway chain id y done added c)
    (hawaited : y.awaited? id = some h) (hreceive : y.receive id (host h) = (z, result))
    (hfatal : ∀ e, result ≠ .error (.fatal e)) :
    ∃ (d : Cycle) (w : Exchange), chain.Heard c d h ∧ w.cycle = some d ∧ w.hostUp = y.hostUp ∧
      w.advance (chain.next h) = (z, result) := by
  obtain ⟨-, hflight⟩ := (awaited?_of_cycle hy.cycle).mp hawaited
  rw [← hy.id] at hreceive
  have hmem : h ∈ c.pending := by simp [Cycle.pending, hflight]
  exact receive_heard hserved hy.cycle hflight (hy.known h hmem) hreceive hfatal

theorem answer (hserved : chain.Served host) (hy : Underway chain id y done added c)
    (hawaited : y.awaited? id = some h) (hreceive : y.receive id (host h) = (z, .ok .proceed)) :
    ∃ d, Underway chain id z (done ++ [h]) added d := by
  obtain ⟨d, w, hcd, hd, hup, hadvance⟩ := hy.heard hserved hawaited hreceive (by simp)
  rcases advance_next hd (hcd.mode.trans hy.mode) hadvance with
    ⟨_, he, -⟩ | ⟨hnew, ⟨_, he, -⟩ | ⟨hqueue, -, rfl⟩⟩
  · simp at he
  · simp at he
  refine ⟨_, rfl, ?_, ?_, hup.trans hy.up, fun k hk => ?_, fun hnil => ?_,
    fun hne => (hy.reaches hne).hear hcd, fun hg => ((hy.loops hg).hear hcd hnew).1⟩
  · unfold Chain.goOn
    split_ifs <;> exact hcd.id.trans hy.id
  · unfold Chain.goOn
    split_ifs <;> exact hcd.mode.trans hy.mode
  · rw [Chain.pending_goOn hcd, List.mem_append] at hk
    rcases hk with hk | hk
    · exact hy.known k (by simp [hcd.pending, hk])
    · split_ifs at hk with hleads
      · obtain rfl := List.mem_singleton.mp hk
        exact .inr (Chain.next_of_leadsOn hleads).1
      · simp at hk
  · obtain ⟨-, hempty, -, -, hon⟩ := (hy.track hnil).hear hcd
    refine (hon ?_).2
    by_contra hlast
    exact hqueue (by simp [Chain.goOn, hlast, hempty])

/-- While nothing has been added the next record of the walk is outstanding or about to be asked
for. -/
theorem awaits_next (hy : Underway chain id y done [] c) : ∃ h, done ++ [h] <+: chain.walk ∧
    (y.awaited? id = some h ∨ y.nextRequest.2 = .ok (some ⟨id, h⟩)) := by
  obtain ⟨⟨h, hwalk, hpending⟩, htaken, -⟩ := hy.track rfl
  have htake : done ++ [h] = chain.walk.take (done.length + 1) := by
    rw [List.take_add_one, ← htaken, hwalk]
    rfl
  refine ⟨h, htake ▸ List.take_prefix _ _, ?_⟩
  cases hflight : c.inFlight with
  | some k =>
    obtain ⟨rfl, -⟩ : k = h ∧ c.queue = [] := by simpa [Cycle.pending, hflight] using hpending
    exact .inl (awaited?_eq_some.mpr ⟨c, hy.cycle, hy.id, hflight⟩)
  | none =>
    have hqueue : c.queue = [h] := by simpa [Cycle.pending, hflight] using hpending
    right
    simp [nextRequest, hy.cycle, hy.up, hflight, hqueue, hy.id]

/-- The answer to it completes the resync if it is the last record. -/
theorem receive_next (hserved : chain.Served host) (hy : Underway chain id y done [] c)
    (hawaited : y.awaited? id = some h) (hreceive : y.receive id (host h) = (z, result))
    (hfatal : ∀ e, result ≠ .error (.fatal e)) :
    done ++ [h] ≠ chain.walk ∧ result = .ok .proceed ∨
      done ++ [h] = chain.walk ∧ ∃ notice, result = .ok (.complete notice) := by
  obtain ⟨d, w, hcd, hd, -, hadvance⟩ := hy.heard hserved hawaited hreceive hfatal
  obtain ⟨-, hempty, hplace, htake, hon⟩ := (hy.track rfl).hear hcd
  have hlast : done ++ [h] = chain.walk ↔ ¬ chain.LeadsOn h := by
    rw [htake, List.take_eq_self_iff, Chain.LeadsOn, hplace, Chain.walk, List.length_cons]
    omega
  rcases advance_next hd (hcd.mode.trans hy.mode) hadvance with
    ⟨_, -, hleads, hmem⟩ | ⟨-, ⟨notice, rfl, hqueue⟩ | ⟨hqueue, rfl, -⟩⟩
  · exact absurd hmem (hon hleads).1
  · refine .inr ⟨hlast.mpr fun hleads => ?_, notice, rfl⟩
    simp [Chain.goOn, hleads] at hqueue
  · refine .inl ⟨fun heq => ?_, rfl⟩
    exact hqueue (by simp [Chain.goOn, hlast.mp heq, hempty])

/-- A cycle that loops goes on, or comes upon a handle it has seen. -/
theorem receive_looping (hserved : chain.Served host) (hy : Underway chain id y done added c)
    (hloops : chain.Loops c) (hawaited : y.awaited? id = some h)
    (hreceive : y.receive id (host h) = (z, result)) (hfatal : ∀ e, result ≠ .error (.fatal e)) :
    result = .ok .proceed ∨ ∃ g, result = .error (.chainLoop g) := by
  obtain ⟨d, w, hcd, hd, -, hadvance⟩ := hy.heard hserved hawaited hreceive hfatal
  rcases advance_next hd (hcd.mode.trans hy.mode) hadvance with
    ⟨g, rfl, -⟩ | ⟨hnew, ⟨_, -, hempty⟩ | ⟨-, rfl, -⟩⟩
  · exact .inr ⟨g, rfl⟩
  · exact absurd hempty (hloops.hear hcd hnew).2
  · exact .inl rfl

end Underway

theorem Course.underway (hserved : chain.Served host) (hup : x.hostUp = true)
    (h : Course host chain x.beginResync.2 x.beginResync.1 y done added) :
    ∃ c, Underway chain x.beginResync.2 y done added c := by
  induction h with
  | refl => exact beginResync_underway chain hup
  | request _ hrequest ih =>
    obtain ⟨c, hc⟩ := ih
    exact hc.request (Prod.ext rfl hrequest)
  | answer _ hawaited hreceive ih =>
    obtain ⟨c, hc⟩ := ih
    exact hc.answer hserved hawaited (Prod.ext rfl hreceive)
  | @drop y _ _ cycle answer _ hunawaited ih =>
    obtain ⟨c, hc⟩ := ih
    cases hreceive : y.receive cycle answer with
    | mk z result =>
    rcases dropped_or_awaited hreceive with ⟨rfl, -⟩ | ⟨handle, hawaited⟩
    · exact ⟨c, hc.cycle, hc.id, hc.mode, hc.up, hc.known, hc.track, hc.reaches, hc.loops⟩
    · simp [hunawaited] at hawaited
  | join _ hcycle hhandles ih =>
    obtain ⟨c, hc⟩ := ih
    obtain rfl := Option.some.inj (hc.cycle.symm.trans hcycle)
    exact hc.join hhandles

/-- A resync that no fetch adds a handle to asks for the records of the chain one after another, and
completes with the last of them. One that a fetch has added a record to other than the last does not
complete: it goes on until it comes upon a handle for the second time. -/
theorem resync_along_chain (hserved : chain.Served host) (hup : x.hostUp = true)
    (hcourse : Course host chain x.beginResync.2 x.beginResync.1 y done added) :
    (added = [] → ∃ h, done ++ [h] <+: chain.walk ∧
      (y.awaited? x.beginResync.2 = some h ∨
        y.nextRequest.2 = .ok (some ⟨x.beginResync.2, h⟩)) ∧
      ∀ z result, y.awaited? x.beginResync.2 = some h →
        y.receive x.beginResync.2 (host h) = (z, result) → (∀ e, result ≠ .error (.fatal e)) →
        done ++ [h] ≠ chain.walk ∧ result = .ok .proceed ∨
          done ++ [h] = chain.walk ∧ ∃ notice, result = .ok (.complete notice)) ∧
    ((∃ g ∈ added, chain.LeadsOn g) → ∀ h z result, y.awaited? x.beginResync.2 = some h →
      y.receive x.beginResync.2 (host h) = (z, result) → (∀ e, result ≠ .error (.fatal e)) →
      result = .ok .proceed ∨ ∃ g, result = .error (.chainLoop g)) := by
  obtain ⟨c, hy⟩ := hcourse.underway hserved hup
  refine ⟨fun hnil => ?_, fun hg h z result hawaited hreceive hfatal =>
    hy.receive_looping hserved (hy.loops hg) hawaited hreceive hfatal⟩
  subst hnil
  obtain ⟨h, hwalk, hnext⟩ := hy.awaits_next
  exact ⟨h, hwalk, hnext, fun z result hawaited hreceive hfatal =>
    hy.receive_next hserved hawaited hreceive hfatal⟩

/-- Three records that lead from one to the next. -/
def threeRecords : Chain := ⟨1, [2, 3], by decide, by decide⟩

/-- A host of three sensors. -/
def threeSensors (h : RecordHandle) : Except RequestError Bytes :=
  let sensor : StateSensor := ⟨3, 1, ⟨1, 1, 1⟩, 0, false, []⟩
  .ok (RecordResponse.single (threeRecords.next h) (encodeRecord (threeRecords.own h) sensor)).encode

theorem threeSensors_served : threeRecords.Served threeSensors := by
  refine ⟨fun h hh => ?_⟩
  have hcases : h = RecordHandle.terminator ∨ h = 1 ∨ h = 2 ∨ h = 3 := by
    simpa [Chain.mem_iff, threeRecords] using hh
  refine ⟨encodeRecord (threeRecords.own h) (⟨3, 1, ⟨1, 1, 1⟩, 0, false, []⟩ : StateSensor), ?_⟩
  rcases hcases with rfl | rfl | rfl | rfl
  all_goals
    refine ⟨by decide +kernel, fun header body hsplit => ?_⟩
    have hhandle := congrArg (fun found => found.toOption.map fun found => found.1.handle) hsplit
    exact Option.some.inj (hhandle.symm.trans (by decide +kernel))

/-- A fetch of the record that is next anyway adds nothing. -/
theorem resync_along_chain_next :
    let x := start .standard ⟨[]⟩ default default
    ∃ y, Course threeSensors threeRecords 0 x.beginResync.1 y [0] [] ∧
      ∃ h, [0] ++ [h] <+: [0, 2, 3] ∧
        (y.awaited? 0 = some h ∨ y.nextRequest.2 = .ok (some ⟨0, h⟩)) := by
  intro x
  obtain ⟨asked, hasked⟩ : ∃ y, y = x.beginResync.1.nextRequest.1 := ⟨_, rfl⟩
  have hfirst : x.beginResync.1.nextRequest.2 = .ok (some ⟨0, 0⟩) := by decide +kernel
  have hcourse : Course threeSensors threeRecords 0 x.beginResync.1 asked [] [] :=
    hasked ▸ .request .refl hfirst
  obtain ⟨heard, hheard⟩ : ∃ y, y = (asked.receive 0 (threeSensors 0)).1 := ⟨_, rfl⟩
  have hcourse : Course threeSensors threeRecords 0 x.beginResync.1 heard [0] [] :=
    hheard ▸ .answer hcourse (by rw [hasked]; decide +kernel) (by rw [hasked]; decide +kernel)
  have hfresh : heard.cycle.map (fun c => c.fresh [2]) = some [] := by
    rw [hheard, hasked]
    decide +kernel
  obtain ⟨c, hc, hnone⟩ := Option.map_eq_some_iff.mp hfresh
  have hsecond : ∀ h ∈ ([2] : List RecordHandle), h ∈ threeRecords := by
    simp [Chain.mem_iff, threeRecords]
  have hjoined := hcourse.join hc hsecond
  rw [hnone, List.append_nil] at hjoined
  obtain ⟨h, hwalk, hnext, -⟩ :=
    (resync_along_chain (x := x) threeSensors_served rfl hjoined).1 rfl
  exact ⟨_, hjoined, h, hwalk, hnext⟩

/-- A fetch of the last record while the first one is outstanding ends the resync, although the chain
has no loop. -/
theorem resync_loops_after_fetch :
    let x := start .standard ⟨[]⟩ default default
    threeRecords.Served threeSensors ∧
    ∃ y, Course threeSensors threeRecords 0 x.beginResync.1 y [0, 3] [3] ∧
      y.awaited? 0 = some 2 ∧ (y.receive 0 (threeSensors 2)).2 = .error (.chainLoop 3) := by
  intro x
  obtain ⟨asked, hasked⟩ : ∃ y, y = x.beginResync.1.nextRequest.1 := ⟨_, rfl⟩
  have hfirst : x.beginResync.1.nextRequest.2 = .ok (some ⟨0, 0⟩) := by decide +kernel
  have hcourse : Course threeSensors threeRecords 0 x.beginResync.1 asked [] [] :=
    hasked ▸ .request .refl hfirst
  have hfresh : asked.cycle.map (fun c => c.fresh [3]) = some [3] := by
    rw [hasked]
    decide +kernel
  obtain ⟨c, hc, hthree⟩ := Option.map_eq_some_iff.mp hfresh
  have hthird : ∀ h ∈ ([3] : List RecordHandle), h ∈ threeRecords := by
    simp [Chain.mem_iff, threeRecords]
  have hcourse := hcourse.join hc hthird
  rw [hthree] at hcourse
  obtain ⟨early, hearly⟩ : ∃ y, y = ((asked.beginFetch [3]).1.receive 0 (threeSensors 0)).1 :=
    ⟨_, rfl⟩
  have hcourse : Course threeSensors threeRecords 0 x.beginResync.1 early [0] [3] :=
    hearly ▸ .answer hcourse (by rw [hasked]; decide +kernel) (by rw [hasked]; decide +kernel)
  have hask : early.nextRequest.2 = .ok (some ⟨0, 3⟩) := by
    rw [hearly, hasked]
    decide +kernel
  have hcourse := hcourse.request hask
  obtain ⟨late, hlate⟩ : ∃ y, y = (early.nextRequest.1.receive 0 (threeSensors 3)).1 := ⟨_, rfl⟩
  have hcourse : Course threeSensors threeRecords 0 x.beginResync.1 late [0, 3] [3] :=
    hlate ▸ .answer hcourse (by rw [hearly, hasked]; decide +kernel)
      (by rw [hearly, hasked]; decide +kernel)
  have hask : late.nextRequest.2 = .ok (some ⟨0, 2⟩) := by
    rw [hlate, hearly, hasked]
    decide +kernel
  have hcourse := hcourse.request hask
  refine ⟨threeSensors_served, _, hcourse, ?_, ?_⟩
  all_goals
    rw [hlate, hearly, hasked]
    decide +kernel

end Exchange
end DescriptorExchange
