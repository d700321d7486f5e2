import DescriptorExchange.Proofs.Containment.Uprooting
import DescriptorExchange.Proofs.Exchange.Baseline

/-!
What undoing an import takes away. A node of the host that holds one of the children goes with all
that lies below it, whichever record has brought the node, and so does every listing that names an
entity of a node that goes. Of the other listings only those of the children in the one record are
taken out. All else stays as it is.
-/
namespace DescriptorExchange

namespace Exchange

open Repository Containment

variable {x y z : Exchange} {r₀ r : Repository} {t₀ t : Containment}
  {held rest : Entity → RecordHandle → Prop} {k : RecordHandle} {child : Entity}
  {es fs : List Entity}

/-- The merges of some children that a record lists have been taken back. -/
structure Unmerged (k : RecordHandle) (es : List Entity) (x y : Exchange) : Prop where
  tree : x.tree.Uproots es y.tree
  names : ∀ j p c, y.repository.Names j p c ↔
    x.repository.Names j p c ∧ ¬ (j = k ∧ c ∈ es) ∧ ¬ x.tree.Loses es p ∧ ¬ x.tree.Loses es c
  shortens : x.repository.Shortens y.repository

namespace Unmerged

theorem refl (hx : x.tree.Forest) : Unmerged k [] x x where
  tree := .of_none hx fun j hj => by simp [Uprooted] at hj
  names j p c := by simp [Loses, Uprooted]
  shortens := .refl _

theorem trans (hx : x.tree.Forest) (hxy : Unmerged k es x y) (hyz : Unmerged k fs y z) :
    Unmerged k (es ++ fs) x z where
  tree := hxy.tree.trans hx hyz.tree
  names j p c := by
    rw [hyz.names, hxy.names, hxy.tree.loses_append hx, hxy.tree.loses_append hx, List.mem_append]
    grind
  shortens := hxy.shortens.trans hyz.shortens

/-- No node of the host holds the child, and only the listing goes. -/
theorem of_own (hx : x.tree.Forest) (htree : y.tree = x.tree)
    (hown : ∀ {i n}, x.tree.node? i = some n → n.entity = child → n.origin ≠ .host)
    (hnames : ∀ j p c, y.repository.Names j p c ↔ x.repository.Names j p c ∧ ¬ (j = k ∧ c = child))
    (hshort : x.repository.Shortens y.repository) : Unmerged k [child] x y := by
  have hnone (j : NodeId) : ¬ x.tree.Uprooted [child] j := by
    rintro ⟨i, n, hn, horigin, he, -⟩
    exact hown hn (List.mem_singleton.mp he) horigin
  refine ⟨htree.symm ▸ .of_none hx hnone, fun j p c => ?_, hshort⟩
  simp [hnames, Loses, hnone]

end Unmerged

/-- The controller's own records and topology are there, and the records list nothing that the tree
does not hold. It may hold more, for a merge that fails leaves a child without a listing. -/
structure HousedIn (r₀ : Repository) (t₀ : Containment) (x : Exchange) : Prop where
  range : x.settings.ownRange = r₀.ownRange
  repository : Extends r₀ x.repository
  tree : Grows t₀ x.tree
  contains : ∀ p c, x.repository.Lists x.repository.ownRange p c → x.tree.Contains p c

theorem GraftedIn.housedIn (h : GraftedIn r₀ t₀ x held) : HousedIn r₀ t₀ x where
  range := h.range
  repository := h.grafted.repository
  tree := h.grafted.tree
  contains p c := (h.grafted.mirror p c).mp

theorem HousedIn.congr (h : HousedIn r₀ t₀ x) (hsettings : y.settings = x.settings)
    (hrepository : y.repository = x.repository) (htree : y.tree = x.tree) : HousedIn r₀ t₀ y where
  range := hsettings ▸ h.range
  repository := hrepository ▸ h.repository
  tree := htree ▸ h.tree
  contains := hrepository ▸ htree ▸ h.contains

/-- What goes out of the tree goes out of the records. -/
theorem HousedIn.unmerged (h : HousedIn r₀ t₀ x) (hregrown : x.Regrown y) (hxy : Unmerged k es x y)
    (hext : Extends r₀ y.repository) (htree : Grows t₀ y.tree) : HousedIn r₀ t₀ y where
  range := (congrArg ExchangeSettings.ownRange hregrown.settings).trans h.range
  repository := hext
  tree := htree
  contains p c hpc := by
    obtain ⟨j, hj⟩ := hext.tidy.lists_iff.mp hpc
    obtain ⟨hnames, -, hkept⟩ := (hxy.names j p c).mp hj
    exact hxy.tree.contains (h.contains p c (h.repository.tidy.lists_iff.mpr ⟨j, hnames⟩)) hkept

section unmerge

variable (hbase : Planted r₀ t₀)
include hbase

/-- Taking back the merge of a child that the base does not list there does not fail. -/
theorem unmerge_unmerged (h : HousedIn r₀ t₀ x)
    (hharmless : Harmless r₀ fun e j => e = child ∧ j = k) :
    ∃ y touched, x.unmerge k child = (y, .ok touched) ∧ x.Regrown y ∧ Unmerged k [child] x y ∧
      HousedIn r₀ t₀ y := by
  obtain ⟨hin, hfresh, hlabel⟩ := hharmless child k ⟨rfl, rfl⟩
  have htidy := h.repository.tidy
  have hforest := h.tree.forest
  rcases x.unmerge_cases k child with
    ⟨hgone, heq⟩ | ⟨id, notices, touched, hfind, horigin, -, heq⟩ | ⟨id, hfind, horigin, hrecord⟩
  · refine ⟨x, [], heq, .refl htidy, ?_, h⟩
    refine .of_own hforest rfl (fun hn he => absurd he (findExact?_eq_none hgone hn))
      (fun j p c => ⟨fun hj => ⟨hj, ?_⟩, And.left⟩) (.refl _)
    -- the records list nothing but what the tree holds, and it does not hold the child
    rintro ⟨rfl, rfl⟩
    obtain ⟨i, n, -, -, hn, -, -, -, he⟩ := h.contains p c (htidy.lists_iff.mpr ⟨j, hj⟩)
    exact findExact?_eq_none hgone hn he
  · obtain ⟨n, hn, rfl⟩ := findExact?_eq_some hfind
    have hhost : n.origin = .host := by simpa [origin?, hn] using horigin
    have hle := (h.tree.origin_eq_host hbase.ownNodes hn).mp hhost
    obtain ⟨huprooted, htree⟩ := h.tree.uproots_detach hn hle hhost
    have hown : x.settings.ownRange = x.repository.ownRange :=
      h.range.trans h.repository.ownRange.symm
    rw [hown] at heq
    obtain ⟨hrs, hshort, hnames⟩ := stripAll_relisted (x.tree.detach id).2 htidy
    have hext := stripAll_extends (x.tree.detach id).2 h.repository
      (hbase.spares_detach h.tree hn hle)
    let y : Exchange := { x with
      tree := (x.tree.detach id).1
      repository := (stripAll x.repository.ownRange (x.tree.detach id).2 x.repository).1
      notices }
    have hregrown : x.Regrown y := ⟨_, _, _, rfl, hrs⟩
    have hundone : Unmerged k [n.entity] x y := by
      refine ⟨htree, fun j p c => ?_, hshort⟩
      have hlost (e : Entity) : e ∈ (x.tree.detach id).2 ↔ x.tree.Loses [n.entity] e := by
        simp only [mem_detach hforest hn, Loses, huprooted]
      have hstripped := hnames j p c
      rw [hlost, hlost] at hstripped
      rw [List.mem_singleton]
      refine hstripped.trans (and_congr_right fun _ => ⟨fun hkept => ⟨?_, hkept⟩, And.right⟩)
      rintro ⟨-, rfl⟩
      exact hkept.2 ⟨id, n, (huprooted id).mpr .refl, hn, rfl⟩
    exact ⟨y, _, heq, hregrown, hundone,
      h.unmerged hregrown hundone hext (h.tree.detach hbase.forest hn hle)⟩
  · obtain ⟨n, hn, rfl⟩ := findExact?_eq_some hfind
    have hown : n.origin ≠ .host := by simpa [origin?, hn] using horigin
    have hunique {i : NodeId} {m : Node} (hm : x.tree.node? i = some m)
        (he : m.entity = n.entity) : m.origin ≠ .host := fun hhost => by
      obtain ⟨-, rfl⟩ := h.tree.eq_of_guest hbase.ownNodes hm hhost hn he.symm
      exact hown hhost
    rcases hrecord with ⟨hnone, heq⟩ | ⟨record, hget, heq⟩
    · refine ⟨x, [], heq, .refl htidy, ?_, h⟩
      refine .of_own hforest rfl hunique (fun j p c => ⟨fun hj => ⟨hj, ?_⟩, And.left⟩) (.refl _)
      rintro ⟨rfl, -⟩
      obtain ⟨a, ha, -⟩ := hj
      simp [ha.get] at hnone
    · obtain ⟨a, ha⟩ := h.repository.holds_of_get? hin hlabel hget
      obtain ⟨s, changed, hremove, hrs, hholds⟩ := removeChild_relisted htidy ha n.entity
      rw [hremove] at heq
      have hregrown : x.Regrown { x with repository := s } := ⟨_, _, _, rfl, hrs⟩
      have hundone : Unmerged k [n.entity] x { x with repository := s } :=
        .of_own hforest rfl hunique (fun j p c => names_of_trim hholds) (shortens_of_trim hholds)
      exact ⟨_, _, heq, hregrown, hundone,
        h.unmerged hregrown hundone (h.repository.trim hrs hfresh hholds) h.tree⟩

theorem unmergeAll_unmerged (h : HousedIn r₀ t₀ x)
    (hharmless : Harmless r₀ fun e j => e ∈ es ∧ j = k) :
    ∃ y touched, unmergeAll k es x = (y, .ok touched) ∧ x.Regrown y ∧ Unmerged k es x y ∧
      HousedIn r₀ t₀ y := by
  induction es generalizing x with
  | nil => exact ⟨x, [], rfl, .refl h.repository.tidy, .refl h.tree.forest, h⟩
  | cons child es ih =>
    obtain ⟨y, touched, hchild, hxy, hfirst, hy⟩ := unmerge_unmerged hbase h
      fun e j (he : e = child ∧ j = k) => hharmless e j ⟨by simp [he.1], he.2⟩
    obtain ⟨z, more, hchildren, hyz, hrest, hz⟩ := ih hy
      fun e j he => hharmless e j ⟨List.mem_cons_of_mem _ he.1, he.2⟩
    exact ⟨z, touched ++ more, by simp only [unmergeAll, hchild, hchildren], hxy.trans hyz,
      hfirst.trans h.tree.forest hrest, hz⟩

end unmerge

/-- What the merge of a record of the host has contributed. -/
def contribution (x : Exchange) (h : RecordHandle) : List (Entity × RecordHandle) :=
  match x.imports[h]? with
  | some (.merged _ children k) => children.map fun e => (e, k)
  | _ => []

/-- Removing a record outside the controller's own range takes nothing out of the tree and the
listings. -/
theorem dropStored_unmerged (hout : x.repository.ownRange.contains k = false) :
    (x.dropStored k).1.tree = x.tree ∧
      ∀ j p c, (x.dropStored k).1.repository.Names j p c ↔ x.repository.Names j p c := by
  have hholds (j : RecordHandle) (a : Association) :
      (x.repository.erase k).Holds j a ↔ x.repository.Holds j a := by
    refine Holds.iff_of_own rfl fun i hi => ?_
    rw [get?_erase, if_neg]
    rintro rfl
    exact Bool.false_ne_true (hout.symm.trans hi)
  have hnames (j : RecordHandle) (p c : Entity) :
      (x.repository.erase k).Names j p c ↔ x.repository.Names j p c := by
    simp only [Names, hholds]
  rcases x.dropStored_cases k with ⟨-, heq⟩ | ⟨termini, sensor, heq⟩
  · rw [heq]
    exact ⟨rfl, fun _ _ _ => Iff.rfl⟩
  · rw [heq]
    exact ⟨rfl, hnames⟩

/-- An exchange from which one import has been undone. -/
structure Forgets (h : RecordHandle) (x y : Exchange) : Prop where
  imports : ∀ j, y.imports[j]? = if j = h then none else x.imports[j]?
  tree : x.tree.Uproots ((x.contribution h).map Prod.fst) y.tree
  names : ∀ k p c, y.repository.Names k p c ↔ x.repository.Names k p c ∧
    (c, k) ∉ x.contribution h ∧ ¬ x.tree.Loses ((x.contribution h).map Prod.fst) p ∧
      ¬ x.tree.Loses ((x.contribution h).map Prod.fst) c

/-- An import that is not a merge takes nothing of the topology with it. -/
theorem Forgets.of_none {h : RecordHandle} (hx : x.tree.Forest)
    (himports : ∀ j, y.imports[j]? = if j = h then none else x.imports[j]?)
    (hnone : x.contribution h = []) (htree : y.tree = x.tree)
    (hnames : ∀ k p c, y.repository.Names k p c ↔ x.repository.Names k p c) : Forgets h x y where
  imports := himports
  tree := by
    rw [hnone, htree]
    exact .of_none hx fun j hj => by simp [Uprooted] at hj
  names k p c := by simp [hnone, hnames, Loses, Uprooted]

theorem dropImport_forgets (hbase : Planted r₀ t₀) (hx : Anchored r₀ t₀ x) (h : RecordHandle) :
    ∃ y result, x.dropImport h = (y, .ok result) ∧ Forgets h x y := by
  obtain ⟨y, result, hdrop, -, himports⟩ := dropImport_anchored hbase hx h
  refine ⟨y, result, hdrop, ?_⟩
  have hforest := hx.graft.grafted.tree.forest
  simp only [dropImport] at hdrop
  cases hi : x.imports[h]? with
  | none =>
    simp only [hi] at hdrop
    obtain ⟨rfl, -⟩ := Prod.mk.inj hdrop
    exact .of_none hforest himports (by simp [contribution, hi]) rfl fun _ _ _ => Iff.rfl
  | some i =>
    cases i with
    | stored k =>
      simp only [hi] at hdrop
      obtain ⟨rfl, -⟩ := Prod.mk.inj hdrop
      have hout := hx.not_own hbase (hx.stored hi)
      obtain ⟨htree, hnames⟩ :=
        dropStored_unmerged (x := { x with imports := x.imports.erase h }) hout
      exact .of_none hforest himports (by simp [contribution, hi]) htree hnames
    | merged parent children k =>
      simp only [hi] at hdrop
      split at hdrop
      next => simp at hdrop
      next z touched hall =>
        obtain ⟨rfl, -⟩ := Prod.mk.inj hdrop
        have hharmless : Harmless r₀ fun e j => e ∈ children ∧ j = k := fun e j hc =>
          hx.harmless e j (claims_toList.mpr ⟨h, parent, children, by rw [hi, hc.2], hc.1⟩)
        have hz : GraftedIn r₀ t₀ { x with imports := x.imports.erase h } x.claimed :=
          ⟨hx.graft.range, hx.graft.grafted⟩
        obtain ⟨z', _, hall', -, hundone, -⟩ := unmergeAll_unmerged hbase hz.housedIn hharmless
        obtain ⟨rfl, -⟩ := Prod.mk.inj (hall.symm.trans hall')
        have hcontribution : x.contribution h = children.map fun e => (e, k) := by
          simp [contribution, hi]
        have hchildren : (x.contribution h).map Prod.fst = children := by
          simp [hcontribution, Function.comp_def]
        refine ⟨himports, hchildren ▸ hundone.tree, fun j p c => ?_⟩
        rw [hchildren, hundone.names, hcontribution]
        simp [and_comm, eq_comm]

/-- Forgetting a record of the host takes what its import has contributed out of the topology, and
nothing else but what lies below. -/
theorem forget_takes_back {c : Configuration} {names : EntityNames} {calls : List Call}
    (hranges : c.settings.ownRange.Apart c.settings.hostRange) (hseed : c.seed = .ok (r, t))
    (hrun : (start c.settings names r t).run? calls = some x) (h : RecordHandle) :
    ∃ y touched, x.forget [h] = (y, .ok touched) ∧ Forgets h x y := by
  obtain ⟨hplanted, -, hown, hhost⟩ := seed_planted hranges hseed
  have hx := run?_anchored hplanted (start_anchored hplanted hown.symm hhost.symm) hrun
  obtain ⟨y, ⟨touched, sensor⟩, hdrop, hy⟩ := dropImport_forgets hplanted hx h
  refine ⟨if sensor then y.publishSensors else y, Std.ExtTreeSet.ofList (touched ++ []),
    by simp only [forget, dropImports, hdrop, Bool.or_false], ?_⟩
  split_ifs
  · exact ⟨hy.imports, hy.tree, hy.names⟩
  · exact hy

/-- An answer with a record that puts a card into the chassis of the standard configuration. -/
def cardListing (h : RecordHandle) (kind : UInt8) (next : RecordHandle) : Bytes :=
  let card : Association := ⟨1, kind, ⟨11521, 1, 0⟩, [⟨68, 1, 1⟩]⟩
  (RecordResponse.single next (encodeRecord h card)).encode

/-- Forgetting a listing of the card that has come after another one. -/
theorem forget_takes_back_listing :
    let seeded := (Containment.empty.addRoot ⟨11521, 1, 0⟩ .own).1
    ∃ x, (start Configuration.standard.settings ⟨[]⟩ (.empty .localDefault .hostDefault) seeded).run?
        [.resync, .request, .receive 0 (.ok (cardListing 1 Association.physical 2)),
          .request, .receive 0 (.ok (cardListing 2 Association.logical 0))] = some x ∧
      x.contribution 2 = [(⟨68, 1, 1⟩, 2)] ∧
      ∃ y touched, x.forget [2] = (y, .ok touched) ∧ Forgets 2 x y := by
  intro seeded
  have hrun : ((start Configuration.standard.settings ⟨[]⟩ (.empty .localDefault .hostDefault)
      seeded).run? [.resync, .request, .receive 0 (.ok (cardListing 1 Association.physical 2)),
        .request, .receive 0 (.ok (cardListing 2 Association.logical 0))]).map
          (fun x => x.contribution 2) = some [(⟨68, 1, 1⟩, 2)] := by
    decide +kernel
  obtain ⟨x, hx, hcontribution⟩ := Option.map_eq_some_iff.mp hrun
  exact ⟨x, hx, hcontribution,
    forget_takes_back (c := .standard) ⟨by decide, by decide, by decide⟩ rfl hx 2⟩

/-- The first record brings the card into the tree. Forgetting the second one, which has only listed
it again, takes it out. -/
theorem forget_takes_node_of_other :
    let seeded := (Containment.empty.addRoot ⟨11521, 1, 0⟩ .own).1
    Configuration.standard.seed = .ok (.empty .localDefault .hostDefault, seeded) ∧
    ∃ x y, (start Configuration.standard.settings ⟨[]⟩ (.empty .localDefault .hostDefault)
        seeded).run? [.resync, .request,
          .receive 0 (.ok (cardListing 1 Association.physical 2))] = some x ∧
      x.tree.findExact? ⟨68, 1, 1⟩ = some 1 ∧ x.contribution 1 = [(⟨68, 1, 1⟩, 1)] ∧
      x.run? [.request, .receive 0 (.ok (cardListing 2 Association.logical 0))] = some y ∧
      y.tree.findExact? ⟨68, 1, 1⟩ = some 1 ∧ y.contribution 1 = [(⟨68, 1, 1⟩, 1)] ∧
      (y.forget [2]).1.contribution 1 = [(⟨68, 1, 1⟩, 1)] ∧
      (y.forget [2]).1.tree.findExact? ⟨68, 1, 1⟩ = none := by
  intro seeded
  have hfirst : ((start Configuration.standard.settings ⟨[]⟩ (.empty .localDefault .hostDefault)
      seeded).run? [.resync, .request,
        .receive 0 (.ok (cardListing 1 Association.physical 2))]).any (fun x =>
      x.tree.findExact? ⟨68, 1, 1⟩ = some 1 ∧ x.contribution 1 = [(⟨68, 1, 1⟩, 1)] ∧
      (x.run? [.request, .receive 0 (.ok (cardListing 2 Association.logical 0))]).any fun y =>
      y.tree.findExact? ⟨68, 1, 1⟩ = some 1 ∧ y.contribution 1 = [(⟨68, 1, 1⟩, 1)] ∧
      (y.forget [2]).1.contribution 1 = [(⟨68, 1, 1⟩, 1)] ∧
      (y.forget [2]).1.tree.findExact? ⟨68, 1, 1⟩ = none) = true := by
    decide +kernel
  obtain ⟨x, hx, hfacts⟩ := (Option.any_eq_true _ _).mp hfirst
  obtain ⟨hfind, hcontribution, hsecond⟩ := of_decide_eq_true hfacts
  obtain ⟨y, hy, hfacts⟩ := (Option.any_eq_true _ _).mp hsecond
  exact ⟨rfl, x, y, hx, hfind, hcontribution, hy, of_decide_eq_true hfacts⟩

end Exchange
end DescriptorExchange
