import DescriptorExchange.Proofs.Exchange.Remerging
import DescriptorExchange.Proofs.Message.RecordTransfer
import DescriptorExchange.Proofs.Repository.Capacity

/-!
What can bring the exchange to a stop. Forgetting records does not fail, and neither do container
fix-ups, so what is left is storing a record and listing a child. Whatever the host sends, a fatal
error means that the handles of a range are used up or that an association record of the
controller's own has as many children as it can list.
-/
namespace DescriptorExchange.Exchange

open Repository Containment

variable {x y : Exchange} {r₀ : Repository} {t₀ : Containment}
  {held : Entity → RecordHandle → Prop} {node : NodeId} {above : Node} {kind : UInt8}
  {child : Entity} {children : List Entity} {e : RepositoryError}

/-- An answer that cannot be read is not fatal. -/
theorem readAnswer_not_fatal {handle : RecordHandle} {answer : Except RequestError Bytes}
    {cause : ExchangeError} (h : readAnswer handle answer = .error cause) :
    cause ≠ .fatal e := by
  rintro rfl
  unfold readAnswer at h
  cases answer with
  | error cause => simp [Except.mapError, bind, Except.bind] at h
  | ok body =>
    simp only [Except.mapError, bind, Except.bind] at h
    cases hbody : RecordResponse.decode body with
    | error cause => simp [hbody] at h
    | ok response =>
      by_cases hok : response.completion.isSuccess = true
      · cases hrecord : response.record <;> simp [hbody, hok, hrecord, pure, Except.pure] at h
      · simp [hbody, hok, throw, throwThe, MonadExceptOf.throw] at h

section seeded

variable (hbase : Planted r₀ t₀)
include hbase

theorem exhausted_of_mergeChild (h : GraftedIn r₀ t₀ x held)
    (hmerge : x.mergeChild node above.entity kind child = (y, .error e)) :
    y.repository.Exhausted e := by
  have hrange : x.repository.ownRange.first ≤ x.repository.ownRange.last :=
    h.grafted.repository.ownRange ▸ hbase.ranges.ownProper
  obtain ⟨tree, placement, -, hassociate, rfl⟩ := mergeChild_fails hmerge
  rw [grow_repository]
  exact exhausted_of_associate h.grafted.repository.tidy hrange hassociate

theorem exhausted_of_mergeChildren (h : GraftedIn r₀ t₀ x held)
    (habove : x.tree.node? node = some above)
    (hmerge : mergeChildren node above.entity kind children x = (y, .error e)) :
    y.repository.Exhausted e := by
  obtain ⟨done, child, later, z, new, rfl, hdone, hfails⟩ := mergeChildren_fails hmerge
  have hmid := mergeChildren_mergesInto hbase.ranges h habove hdone
  obtain ⟨above', habove', hentity⟩ := hmid.above
  rw [← hentity] at hfails
  exact exhausted_of_mergeChild hbase hmid.graft hfails

theorem exhausted_of_merge {h : RecordHandle} {a : Association} (hx : Anchored r₀ t₀ x)
    (hmerge : x.merge h a = (y, .error e)) : y.repository.Exhausted e := by
  obtain ⟨node, parent, -, hparent, hchildren⟩ := merge_fails hmerge
  obtain ⟨above, habove, rfl⟩ := Containment.entity?_eq_some.mp hparent
  have hsought : GraftedIn r₀ t₀ (x.mapCycle fun c => { c with parentFound := true })
      x.claimed := ⟨hx.graft.range, hx.graft.grafted⟩
  exact exhausted_of_mergeChildren hbase hsought habove hchildren

/-- Only a record that can be read gets that far. -/
theorem exhausted_of_store {h : RecordHandle} {header : RecordHeader} {record body : Bytes}
    (hx : Anchored r₀ t₀ x) (hsplit : RecordHeader.split record = .ok (header, body))
    (hstore : x.store h record = (y, .error e)) : y.repository.Exhausted e := by
  have hrange : (x.repository.range .host).first ≤ (x.repository.range .host).last := by
    have hproper := hbase.ranges.hostProper
    rwa [← hx.graft.grafted.repository.hostRange] at hproper
  unfold store at hstore
  split at hstore
  next cause hinsert =>
    obtain ⟨rfl, hcause⟩ := Prod.mk.inj hstore
    obtain rfl := Except.error.inj hcause
    exact exhausted_of_insert hrange hsplit hinsert
  next => simp at hstore

theorem exhausted_of_classify {header : RecordHeader} {record body : Bytes}
    (hx : Anchored r₀ t₀ x) (hsplit : RecordHeader.split record = .ok (header, body))
    (h : x.classify header record = (y, .error e)) : y.repository.Exhausted e := by
  rcases classify_uniform header record with hskip | ⟨⟨_, a⟩, -, hmerge⟩ | ⟨note, -, hstore⟩
  · simp [hskip] at h
  · exact exhausted_of_merge hbase hx (hmerge x ▸ h)
  · have hnoted : Anchored r₀ t₀ { x with termini := note x.termini } := hx.congr rfl rfl rfl rfl
    exact exhausted_of_store hbase hnoted hsplit (hstore x ▸ h)

theorem exhausted_of_importRecord {record : Bytes} (hx : Anchored r₀ t₀ x)
    (h : x.importRecord record = (y, .error e)) : y.repository.Exhausted e := by
  rcases importRecord_classifies hbase hx record with heq |
    ⟨u, header, body, hsplit, hu, -, -, heq⟩
  · simp [heq] at h
  · exact exhausted_of_classify hbase hu hsplit (heq ▸ h)

end seeded

/-- A fatal error reports a limit of the repository that has been reached. -/
theorem receive_fatal {c : Configuration} {names : EntityNames} {calls : List Call}
    {t : Containment} {r : Repository} {cycle : CycleId} {answer : Except RequestError Bytes}
    (hranges : c.settings.ownRange.Apart c.settings.hostRange) (hseed : c.seed = .ok (r, t))
    (hrun : (start c.settings names r t).run? calls = some x)
    (h : x.receive cycle answer = (y, .error (.fatal e))) : y.repository.Exhausted e := by
  obtain ⟨hplanted, -, hown, hhost⟩ := seed_planted hranges hseed
  have hx := run?_anchored hplanted (start_anchored hplanted hown.symm hhost.symm) hrun
  rcases receive_cases h with ⟨-, hstale⟩ | ⟨d, handle, -, -, -, ⟨cause, hread, -, he⟩ |
    ⟨record, next, -, ⟨z, e', himport, rfl, he⟩ | ⟨z, -, hadvance⟩⟩⟩
  · simp at hstale
  · exact absurd (Except.error.inj he).symm (readAnswer_not_fatal hread)
  · obtain rfl := ExchangeError.fatal.inj (Except.error.inj he)
    have hanswered : Anchored r t (x.answered d) := hx.congr rfl rfl rfl rfl
    have hz : z.repository.Exhausted e := exhausted_of_importRecord hplanted hanswered himport
    exact hz
  · rcases advance_cases hadvance with ⟨-, -, he⟩ | ⟨d, -, ⟨-, he⟩ | ⟨-, he⟩ | ⟨-, he⟩⟩ <;>
      simp at he

/-- The range of the controller's own has one handle, and two records would have to list the card. -/
theorem receive_fatal_second_listing :
    let c : Configuration :=
      { Configuration.standard with settings.ownRange := ⟨1, 1⟩ }
    let seeded := (Containment.empty.addRoot ⟨11521, 1, 0⟩ .own).1
    ∃ x y, (start c.settings ⟨[]⟩ (.empty ⟨1, 1⟩ .hostDefault) seeded).run?
        [.resync, .request, .receive 0 (.ok (cardListing 1 Association.physical 2)), .request] =
          some x ∧
      x.receive 0 (.ok (cardListing 2 Association.logical 0)) =
        (y, .error (.fatal (.noFreeHandle ⟨1, 1⟩))) ∧
      y.repository.Exhausted (.noFreeHandle ⟨1, 1⟩) := by
  intro c seeded
  have hrun : ((start c.settings ⟨[]⟩ (.empty ⟨1, 1⟩ .hostDefault) seeded).run?
      [.resync, .request, .receive 0 (.ok (cardListing 1 Association.physical 2)),
        .request]).any (fun x => (x.receive 0 (.ok (cardListing 2 Association.logical 0))).2 =
          .error (.fatal (.noFreeHandle ⟨1, 1⟩))) = true := by
    decide +kernel
  obtain ⟨x, hx, hfatal⟩ := (Option.any_eq_true _ _).mp hrun
  obtain ⟨y, result, hreceive⟩ :
      ∃ y result, x.receive 0 (.ok (cardListing 2 Association.logical 0)) = (y, result) :=
    ⟨_, _, rfl⟩
  rw [hreceive] at hfatal
  obtain rfl : result = _ := of_decide_eq_true hfatal
  exact ⟨x, y, hx, hreceive,
    receive_fatal (c := c) ⟨by decide, by decide, by decide⟩ rfl hx hreceive⟩

/-- An association whose first child is new fails where the record of the parent is full. -/
theorem merge_of_full {h k : RecordHandle} {a b : Association} {n : Node} {rest : List Entity}
    (hx : Anchored r₀ t₀ x) (hnode : x.parentNode? a.container = some node)
    (hn : x.tree.node? node = some n)
    (hfind : x.repository.findAssociation? n.entity a.kind x.repository.ownRange = some k)
    (hheld : x.repository.Holds k b) (hfull : b.children.length = Association.maxChildren)
    (hchildren : a.children = child :: rest) (hnew : ¬ x.tree.Has child) :
    ∃ y, x.merge h a = (y, .error (.associationFull k)) := by
  have hlisted : child ∉ b.children := fun hmem =>
    hnew (hx.graft.has_of_enters ⟨k, b, hfind, hheld, hmem⟩)
  have hassociate : x.repository.associate n.entity a.kind child = .error (.associationFull k) := by
    simp only [associate, hfind, addChild, association_of_holds hheld]
    simp [bind, Except.bind, hlisted, hfull, throw, throwThe, MonadExceptOf.throw, Except.map]
  obtain ⟨tree, placement, hattach⟩ : ∃ tree placement,
      x.tree.attach node child .host = .ok (tree, placement) := by
    rcases attach_cases hx.graft.grafted.tree.forest hn child with ⟨hhouses, -⟩ | ⟨-, hhas, -⟩ |
      ⟨-, hattach⟩
    · exact absurd hhouses.has hnew
    · exact absurd hhas hnew
    · exact ⟨_, _, hattach⟩
  let sought := x.mapCycle fun c => { c with parentFound := true }
  have hchild : sought.mergeChild node n.entity a.kind child =
      (sought.grow tree placement child, .error (.associationFull k)) := by
    have hassociate : sought.repository.associate n.entity a.kind child = _ := hassociate
    rw [mergeChild_of_attached (x := sought) hattach, hassociate]
  have hmerge : mergeChildren node n.entity a.kind a.children sought =
      (sought.grow tree placement child, .error (.associationFull k)) := by
    simp only [hchildren, mergeChildren, hchild]
  have hparent : x.tree.entity? node = some n.entity := entity?_eq_some.mpr ⟨n, hn, rfl⟩
  refine ⟨sought.grow tree placement child, ?_⟩
  simp only [merge, hnode, hparent]
  rw [hmerge]

/-- An association of new entities, under a node that has no record for its kind, is merged into a
new record that lists all of them. -/
theorem importRecord_anew {found : Bool} {k : RecordHandle} {header : RecordHeader} {record : Bytes}
    {a : Association} {n : Node} (hbase : Planted r₀ t₀) (hx : Anchored r₀ t₀ x)
    (hfound : x.cycle.map Cycle.parentFound = some found)
    (hfree : x.imports[header.handle]? = none)
    (hread : decodeRecord Association record = .ok (header, a))
    (hlocate : x.tree.locate? found a.container = some node) (hn : x.tree.node? node = some n)
    (hnone : x.repository.findAssociation? n.entity a.kind x.repository.ownRange = none)
    (hslot : x.repository.slot? .own RecordHandle.terminator = some k)
    (hproper : a.Proper) (hnew : ∀ e ∈ a.children, ¬ x.tree.Has e) :
    ∃ y b, x.importRecord record = (y, .ok ()) ∧ y.repository.Holds k b ∧
      b.children = a.children ∧
      y.repository.findAssociation? n.entity a.kind y.repository.ownRange = some k ∧
      x.tree.Gains node a.children y.tree ∧
      y.imports = x.imports.insert header.handle (.merged n.entity a.children k) ∧
      y.cycle.map Cycle.parentFound = some true := by
  obtain ⟨containerId, kind, container, children⟩ := a
  obtain ⟨child, rest, rfl⟩ := List.exists_cons_of_ne_nil hproper.nonempty
  obtain ⟨body, -, hsplit, -⟩ := decodeRecord_eq_ok.mp hread
  have hseen : Anchored r₀ t₀ (x.see header.handle) := hx.congr rfl rfl rfl rfl
  have hrange : x.repository.ownRange.first ≤ x.repository.ownRange.last :=
    hx.graft.grafted.repository.ownRange ▸ hbase.ranges.ownProper
  have hfound : (x.see header.handle).cycle.map Cycle.parentFound = some found :=
    (parentFound_see x header.handle).trans hfound
  have hnode : (x.see header.handle).parentNode? container = some node := by
    rw [parentNode?_eq, hfound]
    exact hlocate
  have hfirsts : Firsts ((x.see header.handle).Wants node n.entity kind) (child :: rest)
      (child :: rest) := by
    refine .of_nodup hproper.nodup fun e he => ⟨.inr (hnew e he), ?_⟩
    rintro ⟨j, b, hj, -⟩
    have hj : x.repository.findAssociation? n.entity kind x.repository.ownRange = some j := hj
    simp [hnone] at hj
  obtain ⟨hlists, hholds, hlisted⟩ := listsAll_of_none hx.graft.grafted.repository.tidy hrange hnone
    hslot ⟨hproper.nonempty, hproper.fits, hproper.nodup⟩
  obtain ⟨y, hmerge, hy, hgains, himports, hparent⟩ := merge_replays (h := header.handle) hbase hseen
    hnode hn hfirsts hlists fun _ => hlisted
  refine ⟨y, ⟨child.container, kind, n.entity, child :: rest⟩, ?_, ?_, rfl, ?_, hgains, ?_, ?_⟩
  · rw [importRecord_of_unknown hsplit hfree, classify_of_association _ hread, hmerge]
  · rw [hy]
    exact hholds
  · rw [hy]
    exact hlisted
  · rw [himports, if_neg (by simp)]
    rfl
  · obtain ⟨c, hc, -⟩ := Option.map_eq_some_iff.mp hfound
    rw [hparent, hc, Option.map_some]

/-- An association that is not known yet and whose first child is new fails where the record of the
parent is full. -/
theorem importRecord_of_full {k : RecordHandle} {found : Bool} {header : RecordHeader}
    {record : Bytes} {a b : Association} {n : Node} {rest : List Entity}
    (hx : Anchored r₀ t₀ x) (hfound : x.cycle.map Cycle.parentFound = some found)
    (hfree : x.imports[header.handle]? = none)
    (hread : decodeRecord Association record = .ok (header, a))
    (hlocate : x.tree.locate? found a.container = some node) (hn : x.tree.node? node = some n)
    (hfind : x.repository.findAssociation? n.entity a.kind x.repository.ownRange = some k)
    (hheld : x.repository.Holds k b) (hfull : b.children.length = Association.maxChildren)
    (hchildren : a.children = child :: rest) (hnew : ¬ x.tree.Has child) :
    ∃ y, x.importRecord record = (y, .error (.associationFull k)) := by
  obtain ⟨body, -, hsplit, -⟩ := decodeRecord_eq_ok.mp hread
  have hseen : Anchored r₀ t₀ (x.see header.handle) := hx.congr rfl rfl rfl rfl
  have hnode : (x.see header.handle).parentNode? a.container = some node := by
    rw [parentNode?_eq, parentFound_see, hfound]
    exact hlocate
  obtain ⟨y, hmerge⟩ := merge_of_full (h := header.handle) hseen hnode hn hfind hheld hfull hchildren
    hnew
  refine ⟨y, ?_⟩
  rw [importRecord_of_unknown hsplit hfree, classify_of_association _ hread, hmerge]

/-- Many cards of a chassis. -/
def cards (count : Nat) : List Entity := (List.range count).map fun i => ⟨68, UInt16.ofNat i, 1⟩

theorem cards_nodup {count : Nat} (h : count ≤ 65536) : (cards count).Nodup := by
  refine List.Nodup.map_on (fun i hi j hj hij => ?_) List.nodup_range
  have hnumber := congrArg UInt16.toNat (congrArg Entity.number hij)
  rwa [UInt16.toNat_ofNat_of_lt' ((List.mem_range.mp hi).trans_le h),
    UInt16.toNat_ofNat_of_lt' ((List.mem_range.mp hj).trans_le h)] at hnumber

/-- An answer with a record that lists entities under the chassis of the standard configuration. -/
def chassisListing (h : RecordHandle) (entities : List Entity) : Bytes :=
  (RecordResponse.single 0
    (encodeRecord h (⟨1, Association.physical, ⟨11521, 1, 0⟩, entities⟩ : Association))).encode

/-- The chassis and nothing else. -/
def bareChassis : Containment := (Containment.empty.addRoot ⟨11521, 1, 0⟩ .own).1

theorem bareChassis_planted : Planted (.empty .localDefault .hostDefault) bareChassis :=
  (seed_planted (c := .standard) ⟨by decide, by decide, by decide⟩ rfl).1

theorem not_has_bareChassis {e : Entity} (he : e ≠ ⟨11521, 1, 0⟩) : ¬ bareChassis.Has e := by
  rintro ⟨j, n, hn, rfl⟩
  have hn : (Containment.empty.push ⟨⟨11521, 1, 0⟩, .own, none, []⟩).node? j = some n := hn
  rw [node?_push] at hn
  split_ifs at hn
  · exact he (congrArg Node.entity (Option.some.inj hn)).symm
  · simp [node?, Containment.empty] at hn

/-- A first record that lists cards is merged, and the second one is asked for. -/
theorem run?_cards {count : Nat} (hsome : 0 < count) (hfits : count ≤ Association.maxChildren) :
    ∃ x c b, (start Configuration.standard.settings ⟨[]⟩ (.empty .localDefault .hostDefault)
        bareChassis).run?
          [.fetch [1, 2], .request, .receive 0 (.ok (chassisListing 1 (cards count))), .request] =
            some x ∧
      x.cycle = some c ∧ c.id = 0 ∧ c.inFlight = some 2 ∧ c.parentFound = true ∧
      x.imports[(2 : RecordHandle)]? = none ∧ bareChassis.Gains 0 (cards count) x.tree ∧
      x.repository.findAssociation? ⟨11521, 1, 0⟩ Association.physical x.repository.ownRange = some 1 ∧
      x.repository.Holds 1 b ∧ b.children = cards count := by
  let chassis : Node := ⟨⟨11521, 1, 0⟩, .own, none, []⟩
  let first : Association := ⟨1, Association.physical, chassis.entity, cards count⟩
  have hlen : first.children.length ≤ Association.maxChildren := by simpa [first, cards] using hfits
  let u := ((start Configuration.standard.settings ⟨[]⟩ (.empty .localDefault .hostDefault)
    bareChassis).beginFetch [1, 2]).1.nextRequest.1
  have hasked : (start Configuration.standard.settings ⟨[]⟩ (.empty .localDefault .hostDefault)
      bareChassis).run? [.fetch [1, 2], .request] = some u := rfl
  obtain ⟨c, hc, hmode, hflight, hqueue, hid, hfound⟩ : ∃ c, u.cycle = some c ∧
      c.mode = .listed ∧ c.inFlight = some 1 ∧ c.queue = [2] ∧ c.id = 0 ∧
      c.parentFound = false := ⟨_, rfl, rfl, rfl, rfl, rfl, rfl⟩
  have hu : Anchored (.empty .localDefault .hostDefault) bareChassis (u.answered c) :=
    (run?_anchored bareChassis_planted (start_anchored bareChassis_planted rfl rfl) hasked).congr
      rfl rfl rfl rfl
  have hread : decodeRecord Association (encodeRecord 1 first) =
      .ok (writtenHeader 1 0 first, first) :=
    Association.decodeRecord_encodeRecordAs hlen 1 0
  have hproper : first.Proper := by
    refine ⟨List.ne_nil_of_length_pos ?_, hlen, cards_nodup (hfits.trans (by decide))⟩
    simpa [first, cards] using hsome
  have hnew (e : Entity) (he : e ∈ cards count) : ¬ bareChassis.Has e := by
    obtain ⟨i, -, rfl⟩ := List.mem_map.mp he
    exact not_has_bareChassis (by simp)
  have hlocate : (u.answered c).tree.locate? false first.container = some 0 := rfl
  have hnode : (u.answered c).tree.node? 0 = some chassis := rfl
  have hslot : (u.answered c).repository.slot? .own RecordHandle.terminator = some 1 := rfl
  obtain ⟨y, b, himport, hheld, hchildren, hfind, hgains, himports, hfound⟩ :=
    importRecord_anew bareChassis_planted hu (congrArg some hfound) rfl hread hlocate hnode rfl hslot
      hproper hnew
  have hproceeds : u.receive c.id (.ok (chassisListing 1 (cards count))) = (y, .ok .proceed) :=
    receive_of_listed hc hmode hflight (by simp [hqueue])
      (readAnswer_single (Association.length_encodeRecord hlen 1)) himport
  have hup : y.hostUp = true := congrArg (fun p => p.2.2) (importRecord_accounts himport).fixed
  obtain ⟨d, hd, hid', -, hqueue', hflight', -⟩ := importRecord_cycle (x := u.answered c)
    (c := { c with inFlight := none }) rfl (encodeRecord 1 first)
  rw [himport] at hd
  obtain ⟨phase, hrequest⟩ := nextRequest_of_queue hup hd hflight' (hqueue'.trans hqueue)
  have hanswer : u.call? (.receive 0 (.ok (chassisListing 1 (cards count)))) = some y :=
    call?_of_receive (hid ▸ hproceeds)
  have hask : y.call? .request = some _ := congrArg (some ∘ Prod.fst) hrequest
  have hrest : u.run? [.receive 0 (.ok (chassisListing 1 (cards count))), .request] = some _ :=
    Option.bind_eq_some_iff.mpr ⟨y, hanswer, Option.bind_eq_some_iff.mpr ⟨_, hask, rfl⟩⟩
  have hfree : y.imports[(2 : RecordHandle)]? = none := by
    rw [himports]
    exact (imports_insert ..).trans (if_neg (by decide : (2 : RecordHandle) ≠ 1))
  have hfound : d.parentFound = true := by
    rw [hd] at hfound
    exact Option.some.inj hfound
  exact ⟨_, _, b, run?_append hasked hrest, rfl, hid'.trans hid, rfl, hfound, hfree, hgains, hfind,
    hheld, hchildren⟩

/-- Two records of the host list cards under the chassis. The record of the chassis has no room for
those of the second one. -/
theorem receive_fatal_full_record :
    Configuration.standard.seed = .ok (.empty .localDefault .hostDefault, bareChassis) ∧
    ∃ x y, (start Configuration.standard.settings ⟨[]⟩ (.empty .localDefault .hostDefault)
        bareChassis).run?
          [.fetch [1, 2], .request, .receive 0 (.ok (chassisListing 1 (cards 255))), .request] =
            some x ∧
      x.receive 0 (.ok (chassisListing 2 [⟨68, 255, 1⟩])) =
        (y, .error (.fatal (.associationFull 1))) := by
  let second : Association := ⟨1, Association.physical, ⟨11521, 1, 0⟩, [⟨68, 255, 1⟩]⟩
  have hfull : (cards 255).length = Association.maxChildren := by
    simp [cards, Association.maxChildren]
  obtain ⟨x, c, b, hrun, hc, hid, hflight, hfound, hfree, hgains, hfind, hheld, hchildren⟩ :=
    run?_cards (by decide : 0 < 255) (by decide)
  have hx : Anchored (.empty .localDefault .hostDefault) bareChassis (x.answered c) :=
    (run?_anchored bareChassis_planted (start_anchored bareChassis_planted rfl rfl) hrun).congr
      rfl rfl rfl rfl
  have hread : decodeRecord Association (encodeRecord 2 second) =
      .ok (writtenHeader 2 0 second, second) :=
    Association.decodeRecord_encodeRecordAs (by decide) 2 0
  obtain ⟨n, hn, hplaced⟩ := hgains.kept (j := 0) (n := ⟨⟨11521, 1, 0⟩, .own, none, []⟩) rfl
  obtain ⟨hentity, -⟩ := Node.placed_inj hplaced
  have hlocate : (x.answered c).tree.locate? true second.container = some 0 :=
    hgains.findExact? bareChassis_planted.forest rfl
  have hnew : ¬ x.tree.Has ⟨68, 255, 1⟩ := by
    intro hhas
    rcases hgains.has_iff.mp hhas with hhas | hmem
    · exact not_has_bareChassis (by decide) hhas
    · obtain ⟨i, hi, heq⟩ := List.mem_map.mp hmem
      have hnumber : i % 65536 = 255 := by
        simpa using congrArg (UInt16.toNat ∘ Entity.number) heq
      have hi := List.mem_range.mp hi
      omega
  have hfree : (x.answered c).imports[(writtenHeader 2 0 second).handle]? = none := hfree
  have hfound : (x.answered c).cycle.map Cycle.parentFound = some true := congrArg some hfound
  obtain ⟨y, hfails⟩ := importRecord_of_full hx hfound hfree hread hlocate hn (hentity ▸ hfind) hheld
    (hchildren ▸ hfull) rfl hnew
  have hanswer : readAnswer 2 (.ok (chassisListing 2 [⟨68, 255, 1⟩])) = .ok (encodeRecord 2 second, 0) :=
    readAnswer_single (Association.length_encodeRecord (a := second) (by decide) 2)
  have hreceive := receive_of_failure hc hflight hanswer hfails
  rw [hid] at hreceive
  exact ⟨rfl, x, _, hrun, hreceive⟩

end DescriptorExchange.Exchange
