import DescriptorExchange.Proofs.Containment.Shape
import DescriptorExchange.Proofs.Exchange.Gathering

/-!
Under which node the children of an association come into the tree. All of them go under one node. It
holds the container that the host names, if the tree does, with one exception: a cycle that has found
no parent yet looks for the type and number of the container alone, and takes the oldest node that has
them.
-/
namespace DescriptorExchange

open Containment

theorem Entity.eq_of_fields {d e : Entity} (htype : d.type = e.type) (hnumber : d.number = e.number)
    (hcontainer : d.container = e.container) : d = e := by
  cases d
  cases e
  simp_all

namespace Exchange

variable {x y : Exchange} {hostHandle : RecordHandle} {a : Association} {e : Entity} {i j : NodeId}
  {n : Node}

/-- The running cycle has found no parent yet, and the node is the oldest one with the type and number
of the entity, in another container. -/
structure Misled (x : Exchange) (e : Entity) (i : NodeId) : Prop where
  sought : ∃ c, x.cycle = some c ∧ c.parentFound = false
  other : ∃ n, x.tree.node? i = some n ∧ n.entity.type = e.type ∧ n.entity.number = e.number ∧
    n.entity.container ≠ e.container
  oldest : ∀ {j n}, x.tree.node? j = some n → n.entity.type = e.type → n.entity.number = e.number →
    i ≤ j

/-- Of an entity that the tree holds a node is found: the one that misleads the lookup, if there is
one, and otherwise a node that holds the entity. -/
theorem parentNode?_of_has (h : x.tree.Has e) : ∃ i n, x.parentNode? e = some i ∧
    x.tree.node? i = some n ∧ (∀ k, x.Misled e k → i = k) ∧
      ((∀ k, ¬ x.Misled e k) → n.entity = e) := by
  obtain ⟨j, m, hm, rfl⟩ := h
  by_cases hsought : ∃ c, x.cycle = some c ∧ c.parentFound = false
  · obtain ⟨c, hc, hfound⟩ := hsought
    have hunit {d : Entity} : d.sameUnit m.entity ↔
        d.type = m.entity.type ∧ d.number = m.entity.number := by
      simp [Entity.sameUnit]
    obtain ⟨i, hi⟩ := Option.ne_none_iff_exists'.mp fun hnone : x.tree.findUnit? m.entity = none =>
      find?_eq_none.mp hnone j m hm (hunit.mpr ⟨rfl, rfl⟩)
    obtain ⟨⟨n, hn, hsame⟩, hmin⟩ := find?_eq_some.mp hi
    obtain ⟨htype, hnumber⟩ := hunit.mp hsame
    have holdest {k : NodeId} {w : Node} (hw : x.tree.node? k = some w)
        (ht : w.entity.type = m.entity.type) (hnum : w.entity.number = m.entity.number) : i ≤ k :=
      hmin k w hw (hunit.mpr ⟨ht, hnum⟩)
    refine ⟨i, n, by simp [parentNode?, hc, hfound, hi], hn, fun k hk => ?_, fun hnone => ?_⟩
    · obtain ⟨w, hw, ht, hnum, -⟩ := hk.other
      exact Nat.le_antisymm (holdest hw ht hnum) (hk.oldest hn htype hnumber)
    · by_contra hne
      have hother : n.entity.container ≠ m.entity.container := fun hcontainer =>
        hne (Entity.eq_of_fields htype hnumber hcontainer)
      exact hnone i ⟨⟨c, hc, hfound⟩, ⟨n, hn, htype, hnumber, hother⟩, holdest⟩
  · have heq : x.parentNode? m.entity = x.tree.findExact? m.entity := by
      unfold parentNode?
      split
      next c hc =>
        split_ifs with hfound
        · rfl
        · exact absurd ⟨c, hc, by simpa using hfound⟩ hsought
      next => rfl
    obtain ⟨i, hi⟩ := Option.ne_none_iff_exists'.mp fun hnone => findExact?_eq_none hnone hm rfl
    obtain ⟨n, hn, he⟩ := findExact?_eq_some hi
    exact ⟨i, n, heq.trans hi, hn, fun k hk => absurd hk.sought hsought, fun _ => he⟩

/-- Whatever becomes of its listing, the child is in the tree afterwards, and if it is new there it is
under the node. -/
theorem mergeChild_gains (hx : x.tree.Forest) (hn : x.tree.node? i = some n) (parent : Entity)
    (kind : UInt8) (child : Entity) :
    x.tree.Gains i [child] (x.mergeChild i parent kind child).1.tree ∧
      (x.mergeChild i parent kind child).1.tree.Forest := by
  cases hattach : x.tree.attach i child .host with
  | error cause =>
    rw [mergeChild_of_refused hattach]
    rcases attach_cases hx hn child with ⟨-, j, heq⟩ | ⟨-, helsewhere, -⟩ | ⟨-, heq⟩
    · simp [heq] at hattach
    · exact ⟨.of_has helsewhere, hx⟩
    · simp [heq] at hattach
  | ok grown =>
    obtain ⟨tree, placement⟩ := grown
    have htree : (x.mergeChild i parent kind child).1.tree = tree := by
      rw [mergeChild_of_attached hattach]
      split
      · exact grow_tree ..
      · split_ifs <;> exact grow_tree ..
    rw [htree]
    exact ⟨.attach hx hn hattach, attach_forest hx hattach⟩

/-- Merging children puts those that are new under the node, up to the one at which it fails. -/
theorem mergeChildren_gains (hx : x.tree.Forest) (hn : x.tree.node? i = some n) (parent : Entity)
    (kind : UInt8) (children : List Entity) :
    ∃ tried, tried <+: children ∧
      x.tree.Gains i tried (mergeChildren i parent kind children x).1.tree ∧
      ∀ new, (mergeChildren i parent kind children x).2 = .ok new → tried = children := by
  induction children generalizing x n with
  | nil => exact ⟨[], List.prefix_rfl, .refl .., fun _ _ => rfl⟩
  | cons child rest ih =>
    obtain ⟨hfirst, hy⟩ := mergeChild_gains hx hn parent kind child
    obtain ⟨m, hm, -⟩ := hfirst.kept hn
    obtain ⟨tried, hfront, hrest, hall⟩ := ih hy hm
    unfold mergeChildren
    split
    next y e heq =>
      rw [heq] at hfirst
      exact ⟨[child], ⟨rest, rfl⟩, hfirst, fun _ h => by simp at h⟩
    next y record heq =>
      rw [heq] at hfirst hrest hall
      refine ⟨child :: tried, List.cons_prefix_cons.mpr ⟨rfl, hfront⟩, ?_, ?_⟩
      · split
        next heq' =>
          rw [heq'] at hrest
          exact hfirst.trans hrest
        next heq' =>
          rw [heq'] at hrest
          exact hfirst.trans hrest
      · split
        next => exact fun _ h => by simp at h
        next new heq' => exact fun _ _ => by rw [hall new (by rw [heq'])]

/-- A merge under a node puts the children there that the tree does not hold. -/
theorem merge_gains (hx : x.tree.Forest) (hfind : x.parentNode? a.container = some i)
    (hn : x.tree.node? i = some n) (hostHandle : RecordHandle) : ∃ tried, tried <+: a.children ∧
      x.tree.Gains i tried (x.merge hostHandle a).1.tree ∧
      ((x.merge hostHandle a).2 = .ok () → tried = a.children) := by
  have hentity : x.tree.entity? i = some n.entity := entity?_eq_some.mpr ⟨n, hn, rfl⟩
  obtain ⟨tried, hfront, hgains, hall⟩ :=
    mergeChildren_gains (x := x.findParent) hx hn n.entity a.kind a.children
  refine ⟨tried, hfront, ?_⟩
  cases hchildren : mergeChildren i n.entity a.kind a.children x.findParent with
  | mk y result =>
    rw [hchildren] at hgains hall
    cases result with
    | error e =>
      have hfails : x.merge hostHandle a = (y, .error e) := by
        unfold findParent at hchildren
        simp only [merge, hfind, hentity, hchildren]
      rw [hfails]
      exact ⟨hgains, fun h => by simp at h⟩
    | ok new =>
      rw [merge_of_children hfind hn hchildren]
      exact ⟨hgains, fun _ => hall new rfl⟩

/-- A merge that does not fail brings in every child that the tree does not hold. -/
theorem merge_brings (hx : x.tree.Forest) (hhas : x.tree.Has a.container)
    (hmerge : x.merge hostHandle a = (y, .ok ())) (hchild : e ∈ a.children)
    (hmissing : ¬ x.tree.Has e) :
    ∃ j n, y.tree.node? j = some n ∧ n.entity = e ∧ x.tree.node? j = none := by
  obtain ⟨i, above, hfind, habove, -⟩ := parentNode?_of_has hhas
  obtain ⟨tried, -, hgains, hall⟩ := merge_gains hx hfind habove hostHandle
  rw [hmerge] at hgains hall
  obtain rfl := hall rfl
  obtain ⟨j, n, hn, rfl⟩ := hgains.all e hchild
  refine ⟨j, n, hn, rfl, Option.eq_none_iff_forall_ne_some.mpr fun m hm => hmissing ⟨j, m, hm, ?_⟩⟩
  obtain ⟨n', hn', hplaced⟩ := hgains.kept hm
  obtain rfl := Option.some.inj (hn.symm.trans hn')
  exact (Node.placed_inj hplaced).1.symm

/-- A node that a merge brings into the tree holds one of the children. Its parent holds the container
that the record names, if there is such a node, unless the cycle has found no parent yet and there is
an older node with the type and number of the container: then the oldest such node is the parent. -/
theorem merge_lands (hx : x.tree.Forest) (hhas : x.tree.Has a.container)
    (hnew : (x.merge hostHandle a).1.tree.node? j = some n) (hfree : x.tree.node? j = none) :
    n.entity ∈ a.children ∧ ∃ i, n.parent = some i ∧ (∀ k, x.Misled a.container k → i = k) ∧
      ((∀ k, ¬ x.Misled a.container k) →
        (x.merge hostHandle a).1.tree.entity? i = some a.container) := by
  obtain ⟨i, above, hfind, habove, hmisled, hexact⟩ := parentNode?_of_has hhas
  obtain ⟨tried, hfront, hgains, -⟩ := merge_gains hx hfind habove hostHandle
  rcases hgains.fresh hnew with ⟨m, hm, -⟩ | ⟨-, -, hmem, -, hparent⟩
  · simp [hfree] at hm
  · refine ⟨hfront.subset hmem, i, hparent, hmisled, fun hnone => ?_⟩
    obtain ⟨m, hm, hplaced⟩ := hgains.kept habove
    exact entity?_eq_some.mpr ⟨m, hm, (Node.placed_inj hplaced).1.trans (hexact hnone)⟩

/-- Two roots with one type and number, in different containers. -/
def twinRoots : Containment :=
  Containment.empty.afterAll [.addRoot ⟨45, 1, 1⟩ .own, .addRoot ⟨45, 1, 2⟩ .own]

/-- A resync has begun on the two roots. If the first record of the host names the older one, nothing
misleads the lookup, and the child is under the root it names. If it names the younger one, the older
one misleads the lookup, and the child is under that. -/
theorem merge_lands_older :
    let x := (start .standard ⟨[]⟩ (.empty .localDefault .hostDefault) twinRoots).beginResync.1
    let a : Association := ⟨1, Association.physical, ⟨45, 1, 1⟩, [⟨68, 1, 2⟩]⟩
    let b : Association := ⟨1, Association.physical, ⟨45, 1, 2⟩, [⟨68, 1, 2⟩]⟩
    x.tree.node? 2 = none ∧
      ((∀ k, ¬ x.Misled a.container k) ∧ ∃ n i, (x.merge 1 a).1.tree.node? 2 = some n ∧
        n.parent = some i ∧ (x.merge 1 a).1.tree.entity? i = some a.container) ∧
      x.Misled b.container 0 ∧ ∃ n, (x.merge 1 b).1.tree.node? 2 = some n ∧ n.parent = some 0 := by
  intro x a b
  have htree : x.tree = twinRoots := rfl
  have hforest : x.tree.Forest := htree ▸ (Unrepeated.empty.afterAll _).forest
  have hroots : x.tree.node? 0 = some ⟨⟨45, 1, 1⟩, .own, none, []⟩ ∧
      x.tree.node? 1 = some ⟨⟨45, 1, 2⟩, .own, none, []⟩ ∧ x.tree.node? 2 = none := by
    decide +kernel
  obtain ⟨hold, hyoung, hfree⟩ := hroots
  have hright (k : NodeId) : ¬ x.Misled a.container k := by
    rintro ⟨-, ⟨n, hn, -, -, hother⟩, holdest⟩
    obtain rfl : k = 0 := Nat.le_zero.mp (holdest hold rfl rfl)
    obtain rfl := Option.some.inj (hold.symm.trans hn)
    exact hother rfl
  have hmisled : x.Misled b.container 0 :=
    ⟨⟨_, rfl, rfl⟩, ⟨_, hold, rfl, rfl, by decide⟩, fun _ _ _ => Nat.zero_le _⟩
  have hunder : (x.merge 1 a).1.tree.node? 2 = some ⟨⟨68, 1, 2⟩, .host, some 0, []⟩ ∧
      (x.merge 1 b).1.tree.node? 2 = some ⟨⟨68, 1, 2⟩, .host, some 0, []⟩ := by decide +kernel
  obtain ⟨-, i, hparent, -, hexact⟩ := merge_lands hforest ⟨0, _, hold, rfl⟩ hunder.1 hfree
  obtain ⟨-, j, hparent', hlands, -⟩ := merge_lands (a := b) hforest ⟨1, _, hyoung, rfl⟩ hunder.2 hfree
  exact ⟨hfree, ⟨hright, _, i, hunder.1, hparent, hexact hright⟩, hmisled, _, hunder.2,
    (hlands 0 hmisled) ▸ hparent'⟩

/-- The first record names the younger one, and the child is under the older one. -/
theorem merge_lands_under_twin :
    let x := (start .standard ⟨[]⟩ (.empty .localDefault .hostDefault) twinRoots).beginResync.1
    let a : Association := ⟨1, Association.physical, ⟨45, 1, 2⟩, [⟨68, 1, 2⟩]⟩
    x.tree.Forest ∧ x.tree.entity? 1 = some a.container ∧ x.tree.node? 2 = none ∧
      (x.merge 1 a).2 = .ok () ∧
      (x.merge 1 a).1.tree.node? 2 = some ⟨⟨68, 1, 2⟩, .host, some 0, []⟩ ∧
      (x.merge 1 a).1.tree.entity? 0 = some ⟨45, 1, 1⟩ := by
  intro x a
  have htree : x.tree = twinRoots := rfl
  exact ⟨htree ▸ (Unrepeated.empty.afterAll _).forest, by decide +kernel⟩

end Exchange
end DescriptorExchange
