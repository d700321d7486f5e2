import DescriptorExchange.Proofs.Configuration.Seeding
import DescriptorExchange.Proofs.Exchange.Anchored

/-!
Runs that begin with the topology of a configuration. At every moment the tree and the
controller's own association records describe the same containment, and whatever a run has merged,
skipped, stored, forgotten or left half done, the next resync begins with exactly what the
configuration describes.
-/
namespace DescriptorExchange.Exchange

open Repository Containment

variable {c : Configuration} {names : EntityNames} {r : Repository} {t : Containment}
  {calls : List Call}
  {x : Exchange}

theorem start_anchored {settings : ExchangeSettings} (h : Planted r t)
    (hown : settings.ownRange = r.ownRange)
    (hhost : settings.hostRange = r.hostRange) : Anchored r t (start settings names r t) :=
  anchored_of_planted (x := start settings names r t) h rfl hown hhost

/-- An answer that puts a card into the chassis of the standard configuration. -/
def cardAnswer : Bytes :=
  let card : Association := ⟨1, Association.physical, ⟨11521, 1, 0⟩, [⟨68, 1, 1⟩]⟩
  (RecordResponse.single RecordHandle.terminator (encodeRecord 1 card)).encode

/-- The tree and the association records of the controller's own range describe the same
containment. -/
theorem run_mirrors (hranges : c.settings.ownRange.Apart c.settings.hostRange)
    (hseed : c.seed = .ok (r, t))
    (hrun : (start c.settings names r t).run? calls = some x) (parent child : Entity) :
    x.repository.Lists c.settings.ownRange parent child ↔ x.tree.Contains parent child := by
  obtain ⟨hplanted, -, hown, hhost⟩ := seed_planted hranges hseed
  have hx := run?_anchored hplanted (start_anchored hplanted hown.symm hhost.symm) hrun
  rw [← hown, ← hx.graft.grafted.repository.ownRange]
  exact hx.graft.grafted.mirror parent child

/-- The card is listed under the chassis when it is contained in it. -/
theorem run_mirrors_card :
    let chassis : Entity := ⟨11521, 1, 0⟩
    let seeded := (Containment.empty.addRoot chassis .own).1
    ∃ x, (start Configuration.standard.settings ⟨[]⟩
      (.empty .localDefault .hostDefault) seeded).run?
        [.resync, .request, .receive 0 (.ok cardAnswer)] = some x ∧ x.tree.size = 2 ∧
      x.tree.Contains chassis ⟨68, 1, 1⟩ ∧
      x.repository.Lists .localDefault chassis ⟨68, 1, 1⟩ := by
  intro chassis seeded
  have hrun : ((start Configuration.standard.settings ⟨[]⟩
      (.empty .localDefault .hostDefault) seeded).run?
      [.resync, .request, .receive 0 (.ok cardAnswer)]).map
        (fun x => (x.tree.size, x.tree.node? 0, x.tree.node? 1)) =
      some (2, some ⟨chassis, .own, none, [1]⟩, some ⟨⟨68, 1, 1⟩, .host, some 0, []⟩) := by
    decide +kernel
  obtain ⟨x, hx, hnodes⟩ := Option.map_eq_some_iff.mp hrun
  simp only [Prod.mk.injEq] at hnodes
  obtain ⟨hsize, hchassis, hcard⟩ := hnodes
  have hcontains : x.tree.Contains chassis ⟨68, 1, 1⟩ := ⟨1, _, 0, _, hcard, rfl, hchassis, rfl, rfl⟩
  exact ⟨x, hx, hsize, hcontains, (run_mirrors (c := .standard)
    ⟨by decide, by decide, by decide⟩ rfl hx chassis ⟨68, 1, 1⟩).mpr hcontains⟩

/-- A resync begins with the controller's own records and topology, and with nothing of the host. -/
theorem resync_restores (hranges : c.settings.ownRange.Apart c.settings.hostRange)
    (hseed : c.seed = .ok (r, t)) (hrun : (start c.settings names r t).run? calls = some x) :
    x.beginResync.1.repository = r ∧ x.beginResync.1.repository.inRange c.settings.hostRange = [] ∧
      x.beginResync.1.tree.nodes = t.nodes ∧
      (∀ id, x.beginResync.1.tree.origin? id ≠ some .host) ∧
      x.beginResync.1.imports = ∅ ∧ x.beginResync.1.termini = ∅ := by
  obtain ⟨hplanted, hlists, hown, hhost⟩ := seed_planted hranges hseed
  have hx := run?_anchored hplanted (start_anchored hplanted hown.symm hhost.symm) hrun
  have hrestored := beginResync_restored hplanted hx
  have hext := (beginResync_anchored hplanted hx).graft.grafted.repository
  have hrepository : x.beginResync.1.repository = r := by
    refine Repository.ext_get? hext.ownRange hext.hostRange fun k =>
      hrestored.get?_eq hplanted hext fun label hlabel => ?_
    obtain ⟨record, hget, htype, -⟩ := label?_eq_some.mp hlabel
    exact htype.symm.trans (hlists hget)
  refine ⟨hrepository, ?_, hrestored.nodes, fun id horigin => ?_, hrestored.imports,
    hrestored.termini⟩
  · apply List.eq_nil_iff_forall_not_mem.mpr
    intro entry hentry
    obtain ⟨hget, hin⟩ := mem_inRange.mp hentry
    rw [hrepository] at hget
    rw [HandleRange.not_contains_of_apart hranges.disjoint (hown ▸ hplanted.own hget)] at hin
    simp at hin
  · obtain ⟨n, hn, horigin⟩ := Option.map_eq_some_iff.mp horigin
    rw [node?, hrestored.nodes] at hn
    have hown := hplanted.ownNodes hn
    rw [horigin] at hown
    simp at hown

/-- The card is gone when the next resync begins. -/
theorem resync_restores_card :
    let chassis : Entity := ⟨11521, 1, 0⟩
    let seeded := (Containment.empty.addRoot chassis .own).1
    ∃ x, (start Configuration.standard.settings ⟨[]⟩
      (.empty .localDefault .hostDefault) seeded).run?
        [.resync, .request, .receive 0 (.ok cardAnswer)] = some x ∧ x.tree.size = 2 ∧
      x.beginResync.1.repository = .empty .localDefault .hostDefault ∧
      x.beginResync.1.repository.inRange .hostDefault = [] ∧
      x.beginResync.1.tree.nodes = seeded.nodes ∧
      (∀ id, x.beginResync.1.tree.origin? id ≠ some .host) ∧
      x.beginResync.1.imports = ∅ ∧ x.beginResync.1.termini = ∅ := by
  intro chassis seeded
  have hrun : ((start Configuration.standard.settings ⟨[]⟩
      (.empty .localDefault .hostDefault) seeded).run?
      [.resync, .request, .receive 0 (.ok cardAnswer)]).map (fun x => x.tree.size) = some 2 := by
    decide +kernel
  obtain ⟨x, hx, hsize⟩ := Option.map_eq_some_iff.mp hrun
  exact ⟨x, hx, hsize, resync_restores (c := .standard) ⟨by decide, by decide, by decide⟩ rfl hx⟩

end DescriptorExchange.Exchange
