import DescriptorExchange.Proofs.Exchange.Clearing
import DescriptorExchange.Proofs.Exchange.Gathering

/-!
What a merge that fails leaves behind. The children of an association are attached and listed one
after another, and the import that claims them is written when all of them are done. A failure in
between therefore leaves nodes and listings that no import claims. The main result bounds them: they
are children of that one association, under one node, and new with the failed call. The next resync
finds everything else claimed, takes it back, and leaves just these.
-/
namespace DescriptorExchange

open Repository Containment

namespace Exchange

variable {x y z u : Exchange} {r₀ r : Repository} {t₀ t : Containment}
  {held : Entity → RecordHandle → Prop} {node : NodeId} {above : Node} {parent child : Entity}
  {kind : UInt8} {children tried : List Entity} {e : RepositoryError} {a : Association}

/-- A merge has failed. The imports claim what they claimed before, and all else that the base does
not have is new and one of the children that the merge has come to. -/
structure LeavesOff (r₀ : Repository) (t₀ : Containment) (node : NodeId) (parent : Entity)
    (tried : List Entity) (x y : Exchange) : Prop where
  housed : HousedIn r₀ t₀ y
  settings : y.settings = x.settings
  imports : y.imports = x.imports
  above : y.tree.entity? node = some parent
  guests : ∀ {id n}, y.tree.node? id = some n → n.origin = .host → (∃ k, x.claimed n.entity k) ∨
    (x.tree.issued ≤ id ∧ n.parent = some node ∧ n.entity ∈ tried)
  listings : ∀ {k p c}, y.repository.Names k p c → r₀.Names k p c ∨ x.claimed c k ∨
    (y.tree.Guest c ∧ ∃ j, x.claimed c j) ∨ (p = parent ∧ c ∈ tried)

/-- Ending the cycle makes no difference. -/
theorem LeavesOff.congr (h : LeavesOff r₀ t₀ node parent tried x y)
    (hsettings : z.settings = y.settings) (hrepository : z.repository = y.repository)
    (htree : z.tree = y.tree) (himports : z.imports = y.imports) :
    LeavesOff r₀ t₀ node parent tried x z where
  housed := h.housed.congr hsettings hrepository htree
  settings := hsettings.trans h.settings
  imports := himports.trans h.imports
  above := htree ▸ h.above
  guests := htree ▸ h.guests
  listings := hrepository ▸ htree ▸ h.listings

/-- A listing there is after some children have been merged is one of the base, or claimed, or names
an entity that is claimed, or is one of those children. -/
theorem MergesInto.listings {done : List Entity} {new : List (Entity × RecordHandle)}
    {k : RecordHandle} {p c : Entity} (hx : Anchored r₀ t₀ x)
    (hmid : MergesInto r₀ t₀ x.claimed node parent kind x z new)
    (hnew : Contributes node parent kind done x z (new.map Prod.fst))
    (hk : z.repository.Names k p c) : r₀.Names k p c ∨ x.claimed c k ∨
      (z.tree.Guest c ∧ ∃ j, x.claimed c j) ∨ (p = parent ∧ c ∈ done) := by
  have hz := hmid.graft.grafted
  obtain ⟨above, habove, hentity⟩ := hmid.above
  have hcontains : z.tree.Contains p c :=
    (hz.mirror p c).mp (hz.repository.tidy.lists_iff.mpr ⟨k, hk⟩)
  obtain ⟨id, n, q, m, hn, hq, hm, hp, rfl⟩ := hcontains
  by_cases hle : t₀.issued ≤ id
  · -- a node of the host: it was there and is claimed, or it is new and under the node
    rcases hnew.tree.fresh hn with ⟨n', hn', hplaced⟩ | ⟨-, -, hmem, -, hparent⟩
    · have hguest : z.tree.Guest n.entity := ⟨id, n, hn, rfl, (hz.tree.guest hn hle).1⟩
      obtain ⟨j, hj⟩ := hx.graft.grafted.guests hn' hle
      exact .inr (.inr (.inl ⟨hguest, j, (Node.placed_inj hplaced).1 ▸ hj⟩))
    · obtain rfl := Option.some.inj (hq.symm.trans hparent)
      obtain rfl := Option.some.inj (hm.symm.trans habove)
      exact .inr (.inr (.inr ⟨hp.symm.trans hentity, hmem⟩))
  · rcases hz.names_own hk hn (Nat.lt_of_not_le hle) with hlisted | hclaimed | hmem
    · exact .inl hlisted
    · exact .inr (.inl hclaimed)
    · -- the merge has listed it, in the one record that the parent has for its children
      obtain ⟨⟨a, ha, hcontainer, -⟩, -⟩ :=
        hz.repository.tidy.findAssociation?_eq_some.mp (hmid.found k (.inl ⟨_, hmem⟩))
      obtain ⟨b, hb, hcontainer', -⟩ := hk
      obtain rfl := ha.inj hb
      have hdone := (hnew.firsts.mem.mp (List.mem_map_of_mem hmem)).1
      exact .inr (.inr (.inr ⟨hcontainer'.symm.trans hcontainer, hdone⟩))

section merge

variable (hbase : Planted r₀ t₀)
include hbase

/-- The children a merge has come to when it fails are those that are done and the one it fails at.
-/
theorem mergeChildren_leavesOff (hx : Anchored r₀ t₀ x) (habove : x.tree.node? node = some above)
    (h : mergeChildren node above.entity kind children x = (y, .error e)) :
    ∃ tried, tried <+: children ∧ LeavesOff r₀ t₀ node above.entity tried x y := by
  obtain ⟨done, child, later, z, new, rfl, hdone, hfails⟩ := mergeChildren_fails h
  obtain ⟨tree, placement, hattach, -, rfl⟩ := mergeChild_fails hfails
  have hmid := mergeChildren_mergesInto hbase.ranges hx.graft habove hdone
  have hnew := mergeChildren_contributes hbase.ranges hx.graft habove hdone
  have hz := hmid.graft.grafted
  obtain ⟨above', habove', -⟩ := hmid.above
  have hlast : z.tree.Gains node [child] tree := .attach hz.tree.forest habove' hattach
  have hgains : x.tree.Gains node (done ++ [child]) tree := hnew.tree.trans hlast
  have hhoused : HousedIn r₀ t₀ (z.grow tree placement child) := by
    refine ⟨?_, ?_, ?_, ?_⟩
    · rw [grow_settings]
      exact hmid.graft.range
    · rw [grow_repository]
      exact hz.repository
    · rw [grow_tree]
      exact hz.tree.attach hattach
    · intro p c hlists
      rw [grow_repository] at hlists
      rw [grow_tree, contains_attach hz.tree.forest hattach habove']
      exact .inl ((hz.mirror p c).mp hlists)
  refine ⟨done ++ [child], ⟨later, by simp⟩, hhoused, ?_, ?_, ?_, ?_, ?_⟩
  · rw [grow_settings, hmid.settings]
  · rw [grow_imports, hmid.imports]
  · obtain ⟨m, hm, hplaced⟩ := hgains.kept habove
    rw [grow_tree, entity?, hm]
    exact congrArg some (Node.placed_inj hplaced).1
  · -- a node of the host was there before, and then it is claimed, or the merge has made it
    intro id n hn horigin
    rw [grow_tree] at hn
    rcases hgains.fresh hn with ⟨m, hm, hplaced⟩ | ⟨hle, -, hmem, -, hparent⟩
    · obtain ⟨hentity, horigin', -⟩ := Node.placed_inj hplaced
      have hhost : m.origin = .host := horigin'.symm.trans horigin
      have hle := (hx.graft.grafted.tree.origin_eq_host hbase.ownNodes hm).mp hhost
      rw [hentity]
      exact .inl (hx.graft.grafted.guests hm hle)
    · exact .inr ⟨hle, hparent, hmem⟩
  · -- the child it fails at is attached but not listed
    intro k p c hk
    rw [grow_repository] at hk
    rw [grow_tree]
    rcases hmid.listings hx hnew hk with hlisted | hclaimed | ⟨⟨j, n, hn, hc, horigin⟩, hclaimed⟩ |
      ⟨hp, hmem⟩
    · exact .inl hlisted
    · exact .inr (.inl hclaimed)
    · obtain ⟨m, hm, hplaced⟩ := hlast.kept hn
      obtain ⟨hentity, horigin', -⟩ := Node.placed_inj hplaced
      exact .inr (.inr (.inl ⟨⟨j, m, hm, hentity.trans hc, horigin'.trans horigin⟩, hclaimed⟩))
    · exact .inr (.inr (.inr ⟨hp, List.mem_append_left _ hmem⟩))

theorem merge_leavesOff {hostHandle : RecordHandle} (hx : Anchored r₀ t₀ x)
    (h : x.merge hostHandle a = (y, .error e)) :
    ∃ node parent tried, tried <+: a.children ∧ LeavesOff r₀ t₀ node parent tried x y := by
  obtain ⟨node, parent, -, hparent, hchildren⟩ := merge_fails h
  obtain ⟨above, habove, rfl⟩ := Containment.entity?_eq_some.mp hparent
  have hsought : Anchored r₀ t₀ (x.mapCycle fun c => { c with parentFound := true }) :=
    hx.congr rfl rfl rfl rfl
  obtain ⟨tried, hprefix, hleft⟩ := mergeChildren_leavesOff hbase hsought habove hchildren
  exact ⟨node, above.entity, tried, hprefix, hleft.housed, hleft.settings, hleft.imports,
    hleft.above, hleft.guests, hleft.listings⟩

/-- An association whose import fails has been merged in part, into an exchange that has forgotten
what the record had brought before. -/
theorem importRecord_leavesOff {header : RecordHeader} {record : Bytes} (hx : Anchored r₀ t₀ x)
    (hread : decodeRecord Association record = .ok (header, a))
    (h : x.importRecord record = (y, .error e)) :
    ∃ u node parent tried, tried <+: a.children ∧ Anchored r₀ t₀ u ∧
      u.tree.issued = x.tree.issued ∧ LeavesOff r₀ t₀ node parent tried u y := by
  rcases importRecord_classifies hbase hx record with heq |
    ⟨u, header', body, hsplit, hu, -, hissued, heq⟩
  · simp [heq] at h
  · obtain ⟨body', -, hsplit', -⟩ := decodeRecord_eq_ok.mp hread
    obtain ⟨rfl, -⟩ := Prod.mk.inj (Except.ok.inj (hsplit.symm.trans hsplit'))
    rw [heq, classify_of_association u hread] at h
    obtain ⟨node, parent, tried, hprefix, hleft⟩ := merge_leavesOff hbase hu h
    exact ⟨u, node, parent, tried, hprefix, hu, hissued, hleft⟩

end merge

/-- The association that an awaited answer brings. -/
def broughtAssociation? (x : Exchange) (cycle : CycleId) (answer : Except RequestError Bytes) :
    Option Association := do
  let handle ← x.awaited? cycle
  let (record, _) ← (readAnswer handle answer).toOption
  let (_, a) ← (decodeRecord Association record).toOption
  return a

theorem broughtAssociation?_eq_some {cycle : CycleId} {answer : Except RequestError Bytes}
    (h : x.broughtAssociation? cycle answer = some a) :
    ∃ handle record next header, x.awaited? cycle = some handle ∧
      readAnswer handle answer = .ok (record, next) ∧
      decodeRecord Association record = .ok (header, a) := by
  obtain ⟨handle, hawaited, h⟩ := Option.bind_eq_some_iff.mp h
  obtain ⟨⟨record, next⟩, hread, h⟩ := Option.bind_eq_some_iff.mp h
  obtain ⟨⟨header, a'⟩, hdecode, h⟩ := Option.bind_eq_some_iff.mp h
  obtain rfl : a' = a := Option.some.inj h
  exact ⟨handle, record, next, header, hawaited, toOption_eq_some.mp hread,
    toOption_eq_some.mp hdecode⟩

/-- The controller's own records and topology, and of the host no more than some children of an
association under one node: nodes that are no older than a given one, and listings. -/
structure RestoredBut (r₀ : Repository) (t₀ : Containment) (oldest node : NodeId) (parent : Entity)
    (children : List Entity) (x : Exchange) : Prop where
  housed : HousedIn r₀ t₀ x
  guests : ∀ {id n}, x.tree.node? id = some n → n.origin = .host →
    oldest ≤ id ∧ n.parent = some node ∧ n.entity ∈ children
  listings : ∀ {k p c}, x.repository.Names k p c → r₀.Names k p c ∨ (p = parent ∧ c ∈ children)

/-- When a resync has taken back what is claimed, no more is left than what a failed merge has left.
-/
theorem LeavesOff.restoredBut (hleft : LeavesOff r₀ t₀ node parent tried x y)
    (hclaimed : y.claimed = x.claimed) (hcleared : Cleared r₀ y z) (hz : HousedIn r₀ t₀ z) :
    RestoredBut r₀ t₀ x.tree.issued node parent tried z := by
  have huprooted {id : NodeId} {n : Node} {k : RecordHandle} (hn : y.tree.node? id = some n)
      (horigin : n.origin = .host) (hc : x.claimed n.entity k) :
      y.tree.Uprooted y.claimedEntities id :=
    ⟨id, n, hn, horigin, mem_claimedEntities.mpr ⟨k, hclaimed ▸ hc⟩, .refl⟩
  refine ⟨hz, ?_, ?_⟩
  · intro id n hn horigin
    obtain ⟨hout, m, hm, hplaced⟩ := hcleared.tree.node? hn
    obtain ⟨hentity, horigin', hparent⟩ := Node.placed_inj hplaced
    have hhost : m.origin = .host := horigin'.trans horigin
    rcases hleft.guests hm hhost with ⟨k, hk⟩ | ⟨hle, hunder, hmem⟩
    · exact absurd (huprooted hm hhost hk) hout
    · exact ⟨hle, hparent.symm.trans hunder, hentity ▸ hmem⟩
  · intro k p c hk
    obtain ⟨hnames, hunclaimed, -, hkept⟩ := (hcleared.names k p c).mp hk
    rw [hclaimed] at hunclaimed
    rcases hleft.listings hnames with hlisted | hc | ⟨⟨j, n, hn, rfl, horigin⟩, i, hi⟩ | hnew
    · exact .inl hlisted
    · exact absurd hc hunclaimed
    · exact absurd ⟨j, n, huprooted hn horigin hi, hn, rfl⟩ hkept
    · exact .inr hnew

/-- An association has failed to be merged under a node, at the last of the children in a list.
Every node of the host is claimed, or it is one of these children and new with the failed call. The
next resync takes out just what is claimed, and leaves of the others no more than these children. -/
structure HalfMerged (r₀ : Repository) (t₀ : Containment) (node : NodeId) (parent : Entity)
    (tried : List Entity) (x y : Exchange) : Prop where
  above : y.tree.entity? node = some parent
  guests : ∀ {id n}, y.tree.node? id = some n → n.origin = .host → (∃ k, y.claimed n.entity k) ∨
    (x.tree.issued ≤ id ∧ n.parent = some node ∧ n.entity ∈ tried)
  cleared : Cleared r₀ y y.beginResync.1
  left : RestoredBut r₀ t₀ x.tree.issued node parent tried y.beginResync.1

/-- What an association that fails to be merged leaves behind are children it lists, up to the one
at which the merge fails: all else that is there of the host is claimed, and the next resync takes
it back. -/
theorem failed_merge_leaves {c : Configuration} {names : EntityNames} {calls : List Call}
    {cycle : CycleId} {answer : Except RequestError Bytes}
    (hranges : c.settings.ownRange.Apart c.settings.hostRange) (hseed : c.seed = .ok (r, t))
    (hrun : (start c.settings names r t).run? calls = some x)
    (hbrought : x.broughtAssociation? cycle answer = some a)
    (h : x.receive cycle answer = (y, .error (.fatal e))) :
    ∃ node parent tried, tried <+: a.children ∧ HalfMerged r t node parent tried x y := by
  obtain ⟨hplanted, -, hown, hhost⟩ := seed_planted hranges hseed
  have hx := run?_anchored hplanted (start_anchored hplanted hown.symm hhost.symm) hrun
  obtain ⟨handle, record, next, header, hawaited, hread, hdecode⟩ :=
    broughtAssociation?_eq_some hbrought
  obtain ⟨d, hd, rfl, hflight⟩ := awaited?_eq_some.mp hawaited
  rcases receive_of_inFlight hd hflight h with ⟨cause, hfails, -⟩ |
    ⟨record', next', hread', ⟨z, e', himport, rfl, -⟩ | ⟨z, -, hadvance⟩⟩
  · simp [hread] at hfails
  · obtain ⟨rfl, -⟩ := Prod.mk.inj (Except.ok.inj (hread.symm.trans hread'))
    have hanswered : Anchored r t (x.answered d) := hx.congr rfl rfl rfl rfl
    obtain ⟨u, node, parent, tried, hprefix, hu, hissued, hpartly⟩ :=
      importRecord_leavesOff hplanted hanswered hdecode himport
    have hissued : u.tree.issued = x.tree.issued := hissued
    have hleft : LeavesOff r t node parent tried u (z.abort (.fatal e')) :=
      hpartly.congr rfl rfl rfl rfl
    have hclaimed : (z.abort (.fatal e')).claimed = u.claimed := by
      rw [claimed, hleft.imports, claimed]
    have hhost : (z.abort (.fatal e')).settings.hostRange = r.hostRange := by
      rw [hleft.settings]
      exact hu.hostRange
    obtain ⟨hcleared, hhoused⟩ :=
      beginResync_clears hplanted hleft.housed (hclaimed ▸ hu.harmless) hhost
    refine ⟨node, parent, tried, hprefix, hleft.above, ?_, hcleared, ?_⟩
    · intro id n hn horigin
      rw [hclaimed, ← hissued]
      exact hleft.guests hn horigin
    · rw [← hissued]
      exact hleft.restoredBut hclaimed hcleared hhoused
  · rcases advance_cases hadvance with ⟨-, -, he⟩ | ⟨d, -, ⟨-, he⟩ | ⟨-, he⟩ | ⟨-, he⟩⟩ <;>
      simp at he

/-- An answer with a record that lists a fan under the chassis of the standard configuration, in
another way than the card is. -/
def fanListing : Bytes :=
  let fan : Association := ⟨1, Association.logical, ⟨11521, 1, 0⟩, [⟨29, 1, 1⟩]⟩
  (RecordResponse.single RecordHandle.terminator (encodeRecord 2 fan)).encode

/-- The range of the controller's own has one handle, and the card's record has taken it. The fan
cannot be listed. -/
theorem failed_merge_leaves_fan :
    let c : Configuration := { Configuration.standard with settings.ownRange := ⟨1, 1⟩ }
    let seeded := (Containment.empty.addRoot ⟨11521, 1, 0⟩ .own).1
    ∃ x y, (start c.settings ⟨[]⟩ (.empty ⟨1, 1⟩ .hostDefault) seeded).run?
        [.resync, .request, .receive 0 (.ok (cardListing 1 Association.physical 2)), .request] =
          some x ∧
      x.broughtAssociation? 0 (.ok fanListing) =
        some ⟨1, Association.logical, ⟨11521, 1, 0⟩, [⟨29, 1, 1⟩]⟩ ∧
      x.receive 0 (.ok fanListing) = (y, .error (.fatal (.noFreeHandle ⟨1, 1⟩))) ∧
      ∃ node parent tried, tried <+: [⟨29, 1, 1⟩] ∧
        HalfMerged (.empty ⟨1, 1⟩ .hostDefault) seeded node parent tried x y := by
  intro c seeded
  have hrun : ((start c.settings ⟨[]⟩ (.empty ⟨1, 1⟩ .hostDefault) seeded).run?
      [.resync, .request, .receive 0 (.ok (cardListing 1 Association.physical 2)),
        .request]).any (fun x =>
          x.broughtAssociation? 0 (.ok fanListing) =
            some ⟨1, Association.logical, ⟨11521, 1, 0⟩, [⟨29, 1, 1⟩]⟩ ∧
          (x.receive 0 (.ok fanListing)).2 = .error (.fatal (.noFreeHandle ⟨1, 1⟩))) = true := by
    decide +kernel
  obtain ⟨x, hx, hfacts⟩ := (Option.any_eq_true _ _).mp hrun
  obtain ⟨hbrought, hfatal⟩ := of_decide_eq_true hfacts
  obtain ⟨y, result, hreceive⟩ : ∃ y result, x.receive 0 (.ok fanListing) = (y, result) :=
    ⟨_, _, rfl⟩
  rw [hreceive] at hfatal
  obtain rfl : result = _ := hfatal
  have hranges : c.settings.ownRange.Apart c.settings.hostRange := ⟨by decide, by decide, by decide⟩
  exact ⟨x, y, hx, hbrought, hreceive, failed_merge_leaves hranges rfl hx hbrought hreceive⟩

/-- The fan's node is one of the host, no import claims it, and it is still there when the next
resync has begun. -/
theorem failed_merge_outlives_resync :
    let c : Configuration := { Configuration.standard with settings.ownRange := ⟨1, 1⟩ }
    let seeded := (Containment.empty.addRoot ⟨11521, 1, 0⟩ .own).1
    c.seed = .ok (.empty ⟨1, 1⟩ .hostDefault, seeded) ∧
    ∃ x y, (start c.settings ⟨[]⟩ (.empty ⟨1, 1⟩ .hostDefault) seeded).run?
        [.resync, .request, .receive 0 (.ok (cardListing 1 Association.physical 2)), .request] =
          some x ∧
      x.receive 0 (.ok fanListing) = (y, .error (.fatal (.noFreeHandle ⟨1, 1⟩))) ∧
      y.tree.findExact? ⟨29, 1, 1⟩ = some 2 ∧ y.tree.origin? 2 = some .host ∧
      (∀ k, ¬ y.claimed ⟨29, 1, 1⟩ k) ∧
      y.beginResync.1.tree.findExact? ⟨68, 1, 1⟩ = none ∧
      y.beginResync.1.tree.findExact? ⟨29, 1, 1⟩ = some 2 ∧
      y.beginResync.1.tree.origin? 2 = some .host ∧ y.beginResync.1.imports = ∅ := by
  intro c seeded
  have hrun : ((start c.settings ⟨[]⟩ (.empty ⟨1, 1⟩ .hostDefault) seeded).run?
      [.resync, .request, .receive 0 (.ok (cardListing 1 Association.physical 2)),
        .request]).any (fun x =>
          let y := (x.receive 0 (.ok fanListing)).1
          let w := y.beginResync.1
          (x.receive 0 (.ok fanListing)).2 = .error (.fatal (.noFreeHandle ⟨1, 1⟩)) ∧
          y.tree.findExact? ⟨29, 1, 1⟩ = some 2 ∧ y.tree.origin? 2 = some .host ∧
          ⟨29, 1, 1⟩ ∉ y.claimedEntities ∧
          w.tree.findExact? ⟨68, 1, 1⟩ = none ∧ w.tree.findExact? ⟨29, 1, 1⟩ = some 2 ∧
          w.tree.origin? 2 = some .host ∧ w.imports.isEmpty) = true := by
    decide +kernel
  obtain ⟨x, hx, hfacts⟩ := (Option.any_eq_true _ _).mp hrun
  obtain ⟨hfatal, hfind, horigin, hunclaimed, hgone, hstays, horigin', hempty⟩ :=
    of_decide_eq_true hfacts
  refine ⟨rfl, x, (x.receive 0 (.ok fanListing)).1, hx, Prod.ext rfl hfatal, hfind, horigin, ?_,
    hgone, hstays, horigin', ?_⟩
  · intro k hclaimed
    exact hunclaimed (mem_claimedEntities.mpr ⟨k, hclaimed⟩)
  · exact Std.ExtTreeMap.isEmpty_iff.mp hempty

end Exchange
end DescriptorExchange
