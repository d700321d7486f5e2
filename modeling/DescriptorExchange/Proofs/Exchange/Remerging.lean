import DescriptorExchange.Proofs.Exchange.Gathering
import DescriptorExchange.Proofs.Exchange.Undoing

/-!
Undoing an import and importing the record again. A stored record is stored under the handle it had if
that is the one its range offers. The children of a merged association come back to the places they
had if nothing lies below them, no other record lists them, and they are the last ones of their record.
-/
namespace DescriptorExchange

open Repository Containment

/-- Putting back a record that has been removed. -/
theorem Repository.put_erase {r : Repository} {k : RecordHandle} {record : Record}
    (h : r.get? k = some record) : (r.erase k).put k record = r := by
  refine ext_get? rfl rfl fun j => ?_
  rw [get?_put, get?_erase]
  split_ifs with hj
  · rw [hj, h]
  · rfl

namespace Exchange

variable {x y z : Exchange} {r₀ s : Repository} {t₀ : Containment} {header : RecordHeader}
  {record : Bytes} {h k : RecordHandle} {i : NodeId} {a : Association} {parent : Entity}
  {kind : UInt8} {children : List Entity} {imported : Import}

/-- Putting back an import that has been erased. -/
theorem imports_insert_erase (himport : x.imports[h]? = some imported) :
    (x.imports.erase h).insert h imported = x.imports := by
  refine Std.ExtTreeMap.ext_getElem? fun {j} => ?_
  rw [imports_insert, imports_erase]
  split_ifs with hj
  · rw [hj, himport]
  · rfl

/-- Children that can be taken out of the record that lists them and be listed there again. The ones
that came from the host have nothing below them and are listed nowhere else. -/
structure Recoverable (x : Exchange) (parent : Entity) (kind : UInt8) (children : List Entity)
    (k : RecordHandle) : Prop where
  leaves : ∀ c ∈ children, x.tree.Guest c → ∀ d, ¬ x.tree.Contains c d
  listed : ∀ c ∈ children, x.tree.Guest c → ∀ j p, x.repository.Names j p c → j = k
  last : x.repository.ListsLast k parent kind children

section forget

variable (hbase : Planted r₀ t₀) (hx : Anchored r₀ t₀ x)
include hbase hx

/-- What is left once a merged association has been forgotten. -/
theorem forget_merged (himport : x.imports[h]? = some (.merged parent children k)) :
    ∃ y touched, x.forget [h] = (y, .ok touched) ∧ Anchored r₀ t₀ y ∧
      y.imports = x.imports.erase h ∧ y.cycle = x.cycle ∧
      Relisted x.repository y.repository ∧ Unmerged k children x y := by
  have hharmless : Harmless r₀ fun e j => e ∈ children ∧ j = k := fun e j hc =>
    hx.harmless e j (claims_toList.mpr ⟨h, parent, children, by rw [himport, hc.2], hc.1⟩)
  obtain ⟨y, ⟨_, sensor⟩, hdrop, hy, -⟩ := dropImport_anchored hbase hx h
  simp only [dropImport, himport] at hdrop
  split at hdrop
  next => simp at hdrop
  next w touched hall =>
    obtain ⟨rfl, heq⟩ := Prod.mk.inj hdrop
    obtain ⟨rfl, rfl⟩ := Prod.mk.inj (Except.ok.inj heq)
    have hz : GraftedIn r₀ t₀ { x with imports := x.imports.erase h } x.claimed :=
      ⟨hx.graft.range, hx.graft.grafted⟩
    obtain ⟨w', _, hall', hregrown, hundone, -⟩ := unmergeAll_unmerged hbase hz.housedIn hharmless
    obtain ⟨rfl, -⟩ := Prod.mk.inj (hall.symm.trans hall')
    refine ⟨w, Std.ExtTreeSet.ofList (touched ++ []), ?_, hy, hregrown.imports, ?_,
      hregrown.relisted, ⟨hundone.tree, hundone.names, hundone.shortens⟩⟩
    · simp [forget, dropImports, dropImport, himport, hall]
    · obtain ⟨_, _, _, rfl, -⟩ := hregrown
      rfl

omit hbase in
/-- Of the records nothing goes but the children in the one that lists them. -/
theorem Recoverable.names (hr : x.Recoverable parent kind children k)
    (hxy : Unmerged k children x y) (j : RecordHandle) (p c : Entity) :
    y.repository.Names j p c ↔ x.repository.Names j p c ∧ ¬ (j = k ∧ c ∈ children) := by
  have hloses {e : Entity} := hx.graft.grafted.tree.loses_iff (e := e) hr.leaves
  rw [hxy.names]
  refine and_congr_right fun hnames => ⟨And.left, fun hkept => ⟨hkept, fun hp => ?_, fun hc => ?_⟩⟩
  · obtain ⟨hmem, hguest⟩ := hloses.mp hp
    exact hr.leaves p hmem hguest c ((hx.graft.grafted.mirror p c).mp
      (hx.graft.grafted.repository.tidy.lists_iff.mpr ⟨j, hnames⟩))
  · obtain ⟨hmem, hguest⟩ := hloses.mp hc
    exact hkept ⟨hr.listed c hmem hguest j p hnames, hmem⟩

/-- With its merge taken back the association would contribute what it has contributed, and its
children can be listed once more. -/
theorem Settled.undone (hs : x.Settled i a parent children k)
    (hr : x.Recoverable parent a.kind children k) (hrs : Relisted x.repository y.repository)
    (hxy : Unmerged k children x y) :
    (∃ n, y.tree.node? i = some n ∧ n.entity = parent) ∧ ¬ x.tree.Uprooted children i ∧
      Firsts (y.Wants i parent a.kind) a.children children ∧
      ListsAll parent a.kind y.repository children x.repository := by
  have htree := hx.graft.grafted.tree
  have htidy := hx.graft.grafted.repository.tidy
  have hrange : x.repository.ownRange.first ≤ x.repository.ownRange.last :=
    hx.graft.grafted.repository.ownRange ▸ hbase.ranges.ownProper
  have hloses {e : Entity} := htree.loses_iff (e := e) hr.leaves
  have hhas {e : Entity} := hxy.tree.has_iff (e := e) htree hbase.ownNodes
  obtain ⟨n, hn, hentity⟩ := findExact?_eq_some hs.node
  have hkept : ¬ x.tree.Uprooted children i := fun hi => by
    obtain ⟨hmem, hguest⟩ := hloses.mp ⟨i, n, hi, hn, hentity⟩
    obtain ⟨c, hc⟩ := List.exists_mem_of_ne_nil _ hs.nonempty
    obtain ⟨j, m, hm, hparent, rfl⟩ := hs.housed c hc
    exact hr.leaves parent hmem hguest m.entity ⟨j, m, i, n, hm, hparent, hn, hentity, rfl⟩
  have hholds := hxy.shortens.holds_iff (hr.names hx hxy)
  have hlists := hr.last.listsAll htidy hrange hs.record hrs hholds
  obtain ⟨m, hm, hplaced⟩ := hxy.tree.node?_of_kept hn hkept
  refine ⟨⟨m, hm, (Node.placed_inj hplaced).1.trans hentity⟩, hkept,
    hs.firsts.congr fun c hc => ⟨fun hmem => ⟨?_, ?_⟩, fun hwants => ?_⟩, hlists⟩
  · by_cases hguest : x.tree.Guest c
    · exact .inr fun hback => (hhas.mp hback).2 (hloses.mpr ⟨hmem, hguest⟩)
    · exact .inl (hxy.tree.houses (hs.housed c hmem) fun hlost => hguest (hloses.mp hlost).2)
  · exact hlists.not_enters hrs.tidy (by rw [hrs.ownRange]; exact hrange) hmem
  · by_contra hout
    have hdone := hs.done c hc
    simp only [Wants, not_and_or, not_or, not_not] at hdone
    rcases hdone with ⟨helse, hheld⟩ | henters
    · refine hwants.1.elim (fun hhouses => helse (hxy.tree.houses_of hhouses)) fun hnew => hnew ?_
      exact hhas.mpr ⟨hheld, fun hlost => hout (hloses.mp hlost).1⟩
    · exact hwants.2 (henters.less htidy hrs.tidy hholds hout)

end forget

theorem parentFound_see (x : Exchange) (h : RecordHandle) :
    (x.see h).cycle.map Cycle.parentFound = x.cycle.map Cycle.parentFound := by
  simp [see, mapCycle, Function.comp_def]

theorem parentFound_touch (x : Exchange) (handles : List RecordHandle) :
    (x.touch handles).cycle.map Cycle.parentFound = x.cycle.map Cycle.parentFound := by
  simp [touch, mapCycle, Function.comp_def]

/-- Merging children leaves alone whether a parent has been found. -/
theorem mergeChild_parentFound (x : Exchange) (node : NodeId) (parent : Entity) (kind : UInt8)
    (child : Entity) : (x.mergeChild node parent kind child).1.cycle.map Cycle.parentFound =
      x.cycle.map Cycle.parentFound :=
  mergeChild_induction
    (p := fun y => y.cycle.map Cycle.parentFound = x.cycle.map Cycle.parentFound) rfl
    (fun _ _ _ => by rw [grow_cycle]) (fun _ _ _ _ _ _ hy => hy)
    fun y k hy => (parentFound_touch y [k]).trans hy

theorem mergeChildren_parentFound (node : NodeId) (parent : Entity) (kind : UInt8)
    (children : List Entity) (x : Exchange) :
    (mergeChildren node parent kind children x).1.cycle.map Cycle.parentFound =
      x.cycle.map Cycle.parentFound :=
  mergeChildren_induction
    (p := fun y => y.cycle.map Cycle.parentFound = x.cycle.map Cycle.parentFound)
    (fun y child hy => (mergeChild_parentFound y node parent kind child).trans hy) children rfl

/-- Merging an association whose new children can be listed. -/
theorem merge_replays (hbase : Planted r₀ t₀) (hx : Anchored r₀ t₀ x) {n : Node}
    (hnode : x.parentNode? a.container = some i) (hn : x.tree.node? i = some n)
    (hfirsts : Firsts (x.Wants i n.entity a.kind) a.children children)
    (hlists : ListsAll n.entity a.kind x.repository children s)
    (hfind : children ≠ [] → s.findAssociation? n.entity a.kind s.ownRange = some k) :
    ∃ y, x.merge h a = (y, .ok ()) ∧ y.repository = s ∧ x.tree.Gains i a.children y.tree ∧
      y.imports = (if children = [] then x.imports
        else x.imports.insert h (.merged n.entity children k)) ∧
      y.cycle.map Cycle.parentFound = x.cycle.map fun _ => true := by
  let sought := x.mapCycle fun c => { c with parentFound := true }
  have hsought : GraftedIn r₀ t₀ sought x.claimed := ⟨hx.graft.range, hx.graft.grafted⟩
  obtain ⟨y, new, hmerge, hy⟩ := mergeChildren_replays hbase.ranges hsought hn hfirsts hlists
  have hcontributes := mergeChildren_contributes hbase.ranges hsought hn hmerge
  have hmerged := mergeChildren_mergesInto hbase.ranges hsought hn hmerge
  have hnew : new.map Prod.fst = children := hcontributes.firsts.inj hfirsts
  have hfound := mergeChildren_parentFound i n.entity a.kind a.children sought
  rw [hmerge] at hfound
  refine ⟨_, merge_of_children hnode hn hmerge, hy, hcontributes.tree, ?_, hfound.trans ?_⟩
  · have himports : y.imports = x.imports := hmerged.imports
    dsimp only
    cases hlast : new.getLast? with
    | none =>
      rw [← hnew, List.getLast?_eq_none_iff.mp hlast]
      exact himports
    | some last =>
      obtain ⟨c, j⟩ := last
      have hmem := List.mem_of_getLast? hlast
      have hne : children ≠ [] := hnew ▸ List.ne_nil_of_mem (List.mem_map_of_mem hmem)
      have hj := hmerged.found j (.inl ⟨c, hmem⟩)
      rw [hy, hfind hne] at hj
      rw [if_neg hne, Option.some.inj hj, ← hnew, himports]
  · simp only [sought, mapCycle, Option.map_map]
    rfl

/-- A record that has been imported is forgotten before it is imported again. -/
theorem importRecord_of_known {body : Bytes} {touched : HandleSet}
    (hsplit : RecordHeader.split record = .ok (header, body))
    (himport : x.imports[header.handle]? = some imported)
    (hforget : (x.see header.handle).forget [header.handle] = (y, .ok touched)) :
    x.importRecord record = (y.touch touched.toList).classify header record := by
  unfold see at hforget
  simp only [importRecord, hsplit]
  rw [if_pos, hforget]
  rw [Std.ExtTreeMap.mem_iff_isSome_getElem?]
  exact (congrArg Option.isSome himport).trans rfl

/-- The stored record is removed, whatever else goes with it. -/
theorem forget_stored {old : Record} (himport : x.imports[h]? = some (.stored k))
    (hget : x.repository.get? k = some old) : ∃ y touched, x.forget [h] = (y, .ok touched) ∧
      y.repository = x.repository.erase k ∧ y.tree = x.tree ∧
      y.imports = x.imports.erase h ∧ y.cycle = x.cycle := by
  have hdrop : ∃ termini, ({ x with imports := x.imports.erase h }.dropStored k).1 =
      { x with repository := x.repository.erase k, imports := x.imports.erase h, termini } := by
    simp only [dropStored, hget]
    split_ifs
    · exact ⟨_, rfl⟩
    · split <;> exact ⟨_, rfl⟩
    · exact ⟨_, rfl⟩
  obtain ⟨termini, hdrop⟩ := hdrop
  simp only [forget, dropImports, dropImport, himport, hdrop]
  refine ⟨_, _, rfl, ?_⟩
  split_ifs <;> exact ⟨rfl, rfl, rfl, rfl⟩

/-- A stored record that is imported once more is stored under the handle it had, if that is the one
it would be given. -/
theorem importRecord_stored {body : Bytes} (himport : x.imports[h]? = some (.stored k))
    (hsplit : RecordHeader.split record = .ok (header, body)) (hhandle : header.handle = h)
    (hstanding : x.Standing header record (.stored k))
    (hslot : (x.repository.erase k).slot? .host h = some k) :
    ∃ y, x.importRecord record = (y, .ok ()) ∧ y.repository = x.repository ∧ y.tree = x.tree ∧
      y.imports = x.imports ∧ y.cycle.map Cycle.parentFound = x.cycle.map Cycle.parentFound := by
  subst hhandle
  cases hstanding with
  | @stored _ bytes hstores hbytes hget =>
  obtain ⟨note, hstores⟩ := hstores
  obtain ⟨y, touched, hforget, hy, htree, himports, hcycle⟩ :=
    forget_stored (x := x.see header.handle) himport hget
  have hinsert : y.repository.insert .host record = .ok (x.repository, k) := by
    refine insert_eq_ok.mpr ⟨header, body, bytes, hsplit, ?_, hbytes, ?_⟩
    · rw [hy]
      exact hslot
    · rw [hy]
      exact (put_erase hget).symm
  rw [importRecord_of_known hsplit himport hforget]
  simp only [hstores, store]
  rw [show (y.touch touched.toList).repository.insert .host record = .ok (x.repository, k) from
    hinsert]
  refine ⟨_, rfl, rfl, htree, ?_, ?_⟩
  · change y.imports.insert header.handle (.stored k) = x.imports
    rw [himports]
    exact imports_insert_erase himport
  · refine (parentFound_touch _ [k]).trans ((parentFound_touch y touched.toList).trans ?_)
    rw [hcycle, parentFound_see]

/-- A record that has no import and is skipped leaves no trace but in the counts. -/
theorem importRecord_skipped
    (hfree : ∀ header body, RecordHeader.split record = .ok (header, body) →
      x.imports[header.handle]? = none)
    (hskip : ∀ header body, RecordHeader.split record = .ok (header, body) →
      ∀ z : Exchange, z.classify header record = (z.skip, .ok ())) :
    ∃ y, x.importRecord record = (y, .ok ()) ∧ y.repository = x.repository ∧ y.tree = x.tree ∧
      y.imports = x.imports ∧ y.cycle.map Cycle.parentFound = x.cycle.map Cycle.parentFound := by
  cases hsplit : RecordHeader.split record with
  | error e => exact ⟨x.skip, by simp only [importRecord, hsplit], rfl, rfl, rfl, rfl⟩
  | ok split =>
    obtain ⟨header, body⟩ := split
    rw [importRecord_of_unknown hsplit (hfree header body hsplit), hskip header body hsplit]
    exact ⟨_, rfl, rfl, rfl, rfl, parentFound_see x header.handle⟩

/-- An association that has no import is skipped if it names no node. -/
theorem importRecord_orphaned {found : Bool}
    (hfound : x.cycle.map Cycle.parentFound = some found)
    (hfree : x.imports[header.handle]? = none)
    (hread : decodeRecord Association record = .ok (header, a))
    (hlocate : x.tree.locate? found a.container = none) :
    ∃ y, x.importRecord record = (y, .ok ()) ∧ y.repository = x.repository ∧ y.tree = x.tree ∧
      y.imports = x.imports ∧ y.cycle.map Cycle.parentFound = x.cycle.map Cycle.parentFound := by
  obtain ⟨body, -, hsplit, -⟩ := decodeRecord_eq_ok.mp hread
  have hnode : (x.see header.handle).parentNode? a.container = none := by
    rw [parentNode?_eq, parentFound_see, hfound]
    exact hlocate
  refine ⟨(x.see header.handle).skip, ?_, rfl, rfl, rfl, parentFound_see x header.handle⟩
  rw [importRecord_of_unknown hsplit hfree, classify_of_association _ hread]
  simp only [merge, hnode]

section again

variable (hbase : Planted r₀ t₀) (hx : Anchored r₀ t₀ x)
include hbase hx

/-- A merged association that is imported once more is merged as it was, if its children can be
recovered. -/
theorem importRecord_merged {found : Bool}
    (hfound : x.cycle.map Cycle.parentFound = some found)
    (himport : x.imports[h]? = some (.merged parent children k))
    (hread : decodeRecord Association record = .ok (header, a)) (hhandle : header.handle = h)
    (hlocate : x.tree.locate? found a.container = some i)
    (hs : x.Settled i a parent children k) (hr : x.Recoverable parent a.kind children k) :
    ∃ y, x.importRecord record = (y, .ok ()) ∧ y.repository = x.repository ∧
      x.tree.SamePlaces y.tree ∧ y.imports = x.imports ∧
      y.cycle.map Cycle.parentFound = some true := by
  subst hhandle
  obtain ⟨body, -, hsplit, -⟩ := decodeRecord_eq_ok.mp hread
  have hseen : Anchored r₀ t₀ (x.see header.handle) := hx.congr rfl rfl rfl rfl
  obtain ⟨w, touched, hforget, hw, himports, hcycle, hrs, hundone⟩ :=
    forget_merged hbase hseen himport
  have hs' : (x.see header.handle).Settled i a parent children k :=
    ⟨hs.node, hs.firsts, hs.nonempty, hs.done, hs.housed, hs.record⟩
  obtain ⟨⟨n, hn, rfl⟩, hkept, hfirsts, hlists⟩ :=
    hs'.undone hbase hseen ⟨hr.leaves, hr.listed, hr.last⟩ hrs hundone
  have hfound : (x.see header.handle).cycle.map Cycle.parentFound = some found :=
    (parentFound_see x header.handle).trans hfound
  have hfound : (w.touch touched.toList).cycle.map Cycle.parentFound = some found :=
    (parentFound_touch _ _).trans ((congrArg _ hcycle).trans hfound)
  -- the node is left, and no node in front of it has come
  have hnode : (w.touch touched.toList).parentNode? a.container = some i := by
    rw [parentNode?_eq, hfound]
    change w.tree.locate? found a.container = some i
    unfold locate? at hlocate ⊢
    split_ifs at hlocate ⊢
    · exact hundone.tree.find? (fun n m hnm => by rw [hnm]) hlocate hkept
    · exact hundone.tree.find? (fun n m hnm => by rw [hnm]) hlocate hkept
  have hrecalled : Anchored r₀ t₀ (w.touch touched.toList) := hw.congr rfl rfl rfl rfl
  obtain ⟨y, hmerge, hy, hgains, himports', hfound'⟩ := merge_replays (h := header.handle) hbase
    hrecalled hnode hn hfirsts hlists fun _ => hs.record
  refine ⟨y, ?_, hy, ?_, ?_, ?_⟩
  · rw [importRecord_of_known hsplit himport hforget, classify_of_association _ hread, hmerge]
  · refine hundone.tree.samePlaces hx.graft.grafted.tree hbase.ownNodes hgains hr.leaves hs.housed
      (fun e he => (hs.firsts.mem.mp he).1) fun e he => hx.graft.has_of_not_wants (hs.done e he)
  · rw [himports', if_neg hs.nonempty]
    change w.imports.insert header.handle _ = x.imports
    rw [himports]
    exact imports_insert_erase himport
  · obtain ⟨c, hc, -⟩ := Option.map_eq_some_iff.mp hfound
    rw [hfound', hc, Option.map_some]

/-- An association that has no import and would contribute nothing contributes nothing. -/
theorem importRecord_idle {found : Bool} {n : Node}
    (hfound : x.cycle.map Cycle.parentFound = some found)
    (hfree : x.imports[header.handle]? = none)
    (hread : decodeRecord Association record = .ok (header, a))
    (hlocate : x.tree.locate? found a.container = some i) (hn : x.tree.node? i = some n)
    (hdone : ∀ e ∈ a.children, ¬ x.Wants i n.entity a.kind e) :
    ∃ y, x.importRecord record = (y, .ok ()) ∧ y.repository = x.repository ∧
      x.tree.SamePlaces y.tree ∧ y.imports = x.imports ∧
      y.cycle.map Cycle.parentFound = some true := by
  obtain ⟨body, -, hsplit, -⟩ := decodeRecord_eq_ok.mp hread
  have hseen : Anchored r₀ t₀ (x.see header.handle) := hx.congr rfl rfl rfl rfl
  have hfound : (x.see header.handle).cycle.map Cycle.parentFound = some found :=
    (parentFound_see x header.handle).trans hfound
  have hnode : (x.see header.handle).parentNode? a.container = some i := by
    rw [parentNode?_eq, hfound]
    exact hlocate
  obtain ⟨y, hmerge, hy, hgains, himports, hfound'⟩ := merge_replays (h := header.handle)
    (k := header.handle) hbase hseen hnode hn (.of_none hdone) .nil fun hne => absurd rfl hne
  refine ⟨y, ?_, hy, ?_, himports, ?_⟩
  · rw [importRecord_of_unknown hsplit hfree, classify_of_association _ hread, hmerge]
  · have hsame : x.tree.Uproots [] x.tree :=
      .of_none hx.graft.grafted.tree.forest fun j hj => by simp [Uprooted] at hj
    exact hsame.samePlaces hx.graft.grafted.tree hbase.ownNodes hgains (by simp) (by simp) (by simp)
      fun e he => hx.graft.has_of_not_wants (hdone e he)
  · obtain ⟨c, hc, -⟩ := Option.map_eq_some_iff.mp hfound
    rw [hfound', hc, Option.map_some]

end again

end Exchange
end DescriptorExchange
