import DescriptorExchange.Proofs.Containment.Places
import DescriptorExchange.Proofs.Containment.Twins

/-!
Taking entities out of a tree. A node of the host that holds one of them goes with all that lies below
it, and nothing else does. If nothing lies below any of these nodes, the tree is as it was once the
entities are attached again in the same place.
-/
namespace DescriptorExchange.Containment

variable {t u : Containment} {es fs : List Entity} {i j : NodeId} {n m : Node} {e : Entity}

/-- The node lies at or below a node of the host that holds one of the entities. -/
def Uprooted (t : Containment) (es : List Entity) (j : NodeId) : Prop :=
  ∃ i n, t.node? i = some n ∧ n.origin = .host ∧ n.entity ∈ es ∧ t.Under i j

/-- The entity is that of a node that lies at or below such a node. -/
def Loses (t : Containment) (es : List Entity) (e : Entity) : Prop :=
  ∃ j n, t.Uprooted es j ∧ t.node? j = some n ∧ n.entity = e

/-- The tree without what is uprooted. -/
structure Uproots (t : Containment) (es : List Entity) (u : Containment) : Prop where
  forest : u.Forest
  gone : ∀ {j}, t.Uprooted es j → u.node? j = none
  kept : ∀ {j}, ¬ t.Uprooted es j → (u.node? j).map Node.placed = (t.node? j).map Node.placed

theorem Uprooted.under (h : t.Uprooted es i) (hij : t.Under i j) : t.Uprooted es j := by
  obtain ⟨k, n, hn, horigin, he, hk⟩ := h
  exact ⟨k, n, hn, horigin, he, hk.trans hij⟩

theorem uprooted_union : t.Uprooted (es ++ fs) j ↔ t.Uprooted es j ∨ t.Uprooted fs j := by
  simp only [Uprooted, List.mem_append]
  grind

theorem loses_union : t.Loses (es ++ fs) e ↔ t.Loses es e ∨ t.Loses fs e := by
  simp only [Loses, uprooted_union]
  grind

namespace Uproots

theorem of_none (ht : t.Forest) (h : ∀ j, ¬ t.Uprooted es j) : t.Uproots es t :=
  ⟨ht, fun hj => absurd hj (h _), fun _ => rfl⟩

/-- What is there afterwards was there before, and in the same place. -/
theorem node? (h : t.Uproots es u) (hm : u.node? j = some m) :
    ¬ t.Uprooted es j ∧ ∃ n, t.node? j = some n ∧ n.placed = m.placed := by
  have hout : ¬ t.Uprooted es j := fun hj => by simp [h.gone hj] at hm
  have hkept := h.kept hout
  rw [hm, Option.map_some] at hkept
  exact ⟨hout, Option.map_eq_some_iff.mp hkept.symm⟩

theorem node?_of_kept (h : t.Uproots es u) (hn : t.node? j = some n) (hout : ¬ t.Uprooted es j) :
    ∃ m, u.node? j = some m ∧ m.placed = n.placed := by
  have hkept := h.kept hout
  rw [hn, Option.map_some] at hkept
  exact Option.map_eq_some_iff.mp hkept

theorem houses_of (h : t.Uproots es u) (he : u.Houses i e) : t.Houses i e := by
  obtain ⟨j, m, hm, hparent, rfl⟩ := he
  obtain ⟨-, n, hn, hplaced⟩ := h.node? hm
  obtain ⟨hentity, -, hup⟩ := Node.placed_inj hplaced
  exact ⟨j, n, hn, hup.trans hparent, hentity⟩

theorem houses (h : t.Uproots es u) (he : t.Houses i e) (hkept : ¬ t.Loses es e) :
    u.Houses i e := by
  obtain ⟨j, n, hn, hparent, rfl⟩ := he
  obtain ⟨m, hm, hplaced⟩ := h.node?_of_kept hn fun hj => hkept ⟨j, n, hj, hn, rfl⟩
  obtain ⟨hentity, -, hup⟩ := Node.placed_inj hplaced
  exact ⟨j, m, hm, hup.trans hparent, hentity⟩

/-- A child stays with its parent if both are kept. -/
theorem contains {p c : Entity} (h : t.Uproots es u) (hc : t.Contains p c)
    (hkept : ¬ t.Loses es p ∧ ¬ t.Loses es c) : u.Contains p c := by
  obtain ⟨i, n, q, above, hn, hq, ha, rfl, rfl⟩ := hc
  obtain ⟨m, hm, hplaced⟩ := h.node?_of_kept hn fun hi => hkept.2 ⟨i, n, hi, hn, rfl⟩
  obtain ⟨m', hm', hplaced'⟩ := h.node?_of_kept ha fun hi => hkept.1 ⟨q, above, hi, ha, rfl⟩
  obtain ⟨hentity, -, hparent⟩ := Node.placed_inj hplaced
  exact ⟨i, m, q, m', hm, hparent.trans hq, hm', (Node.placed_inj hplaced').1, hentity⟩

/-- The first node of some kind stays the first one if it is kept. -/
theorem find? {p : Node → Bool} (h : t.Uproots es u)
    (hp : ∀ n m : Node, n.entity = m.entity → p n = p m) (hfind : t.find? p = some i)
    (hkept : ¬ t.Uprooted es i) : u.find? p = some i := by
  obtain ⟨⟨n, hn, hpn⟩, hmin⟩ := find?_eq_some.mp hfind
  obtain ⟨m, hm, hplaced⟩ := h.node?_of_kept hn hkept
  refine find?_eq_some.mpr ⟨⟨m, hm, hp m n (Node.placed_inj hplaced).1 ▸ hpn⟩, fun j m' hm' hpm => ?_⟩
  obtain ⟨-, n', hn', hplaced'⟩ := h.node? hm'
  exact hmin j n' hn' (hp n' m' (Node.placed_inj hplaced').1 ▸ hpm)

/-- Of what is kept the one lies below the other as before. -/
theorem under_iff (ht : t.Forest) (h : t.Uproots es u) (hout : ¬ t.Uprooted es j) :
    u.Under i j ↔ t.Under i j := by
  constructor
  · intro hij
    clear hout
    induction hij with
    | refl => exact .refl
    | child _ hm hc ih =>
      obtain ⟨m', hm', hparent⟩ := h.forest.child hm hc
      obtain ⟨-, n, hn, hplaced⟩ := h.node? hm'
      have hup : n.parent = m'.parent := congrArg (·.2.2) hplaced
      exact ih.of_parent ht hn (hup.trans hparent)
  · intro hij
    induction hij with
    | refl => exact .refl
    | child _ hm hc ih =>
      obtain ⟨n, hn, hparent⟩ := ht.child hm hc
      obtain ⟨m', hm', hplaced⟩ := h.node?_of_kept hn hout
      have hup : m'.parent = n.parent := congrArg (·.2.2) hplaced
      have habove := ih fun hj => hout (hj.under (Under.refl.child hm hc))
      exact habove.of_parent h.forest hm' (hup.trans hparent)

/-- Uprooting in two steps uproots the same. -/
theorem uprooted_append (ht : t.Forest) (h : t.Uproots es u) :
    t.Uprooted (es ++ fs) j ↔ t.Uprooted es j ∨ u.Uprooted fs j := by
  constructor
  · rintro ⟨i, n, hn, horigin, he, hij⟩
    by_cases hout : t.Uprooted es j
    · exact .inl hout
    have hi : ¬ t.Uprooted es i := fun hi => hout (hi.under hij)
    obtain ⟨m, hm, hplaced⟩ := h.node?_of_kept hn hi
    obtain ⟨hentity, horigin', -⟩ :
        m.entity = n.entity ∧ m.origin = n.origin ∧ m.parent = n.parent :=
      by simpa [Node.placed] using hplaced
    have he' : n.entity ∈ fs := (List.mem_append.mp he).resolve_left fun he =>
      hi ⟨i, n, hn, horigin, he, .refl⟩
    exact .inr ⟨i, m, hm, horigin'.trans horigin, hentity ▸ he', (h.under_iff ht hout).mpr hij⟩
  · rintro (⟨i, n, hn, horigin, he, hij⟩ | ⟨i, m, hm, horigin, he, hij⟩)
    · exact ⟨i, n, hn, horigin, List.mem_append_left _ he, hij⟩
    · obtain ⟨-, n, hn, hplaced⟩ := h.node? hm
      obtain ⟨hentity, horigin', -⟩ :
          n.entity = m.entity ∧ n.origin = m.origin ∧ n.parent = m.parent :=
        by simpa [Node.placed] using hplaced
      have hj : ¬ t.Uprooted es j := by
        obtain ⟨m', hm'⟩ := hij.node? h.forest hm
        exact (h.node? hm').1
      exact ⟨i, n, hn, horigin'.trans horigin, List.mem_append_right _ (hentity ▸ he),
        (h.under_iff ht hj).mp hij⟩

theorem loses_append (ht : t.Forest) (h : t.Uproots es u) :
    t.Loses (es ++ fs) e ↔ t.Loses es e ∨ u.Loses fs e := by
  constructor
  · rintro ⟨j, n, hj, hn, rfl⟩
    by_cases hout : t.Uprooted es j
    · exact .inl ⟨j, n, hout, hn, rfl⟩
    · obtain ⟨m, hm, hplaced⟩ := h.node?_of_kept hn hout
      exact .inr ⟨j, m, ((h.uprooted_append ht).mp hj).resolve_left hout, hm,
        congrArg Prod.fst hplaced⟩
  · rintro (⟨j, n, hj, hn, rfl⟩ | ⟨j, m, hj, hm, rfl⟩)
    · exact ⟨j, n, (h.uprooted_append ht).mpr (.inl hj), hn, rfl⟩
    · obtain ⟨-, n, hn, hplaced⟩ := h.node? hm
      exact ⟨j, n, (h.uprooted_append ht).mpr (.inr hj), hn, congrArg Prod.fst hplaced⟩

/-- Of what is kept the same is lost as before. -/
theorem loses_iff (ht : t.Forest) (h : t.Uproots es u) (hkept : ¬ t.Loses es e) :
    u.Loses fs e ↔ t.Loses fs e := by
  have hboth : t.Loses es e ∨ u.Loses fs e ↔ t.Loses es e ∨ t.Loses fs e :=
    (h.loses_append ht).symm.trans loses_union
  simpa only [hkept, false_or] using hboth

theorem trans {v : Containment} (ht : t.Forest) (htu : t.Uproots es u) (huv : u.Uproots fs v) :
    t.Uproots (es ++ fs) v := by
  refine ⟨huv.forest, fun {j} hj => ?_, fun {j} hout => ?_⟩
  · rcases (htu.uprooted_append ht).mp hj with hj | hj
    · by_contra hne
      obtain ⟨m, hm⟩ := Option.ne_none_iff_exists'.mp hne
      obtain ⟨-, n, hn, -⟩ := huv.node? hm
      simp [htu.gone hj] at hn
    · exact huv.gone hj
  · rw [htu.uprooted_append ht, not_or] at hout
    rw [huv.kept hout.2, htu.kept hout.1]

end Uproots

/-- Detaching a node of the host uproots the entity it holds, if no other node holds it. -/
theorem uproots_detach_of_unique (ht : t.Forest) (hn : t.node? i = some n)
    (horigin : n.origin = .host)
    (hunique : ∀ {j m}, t.node? j = some m → m.entity = n.entity → j = i) :
    (∀ j, t.Uprooted [n.entity] j ↔ t.Under i j) ∧ t.Uproots [n.entity] (t.detach i).1 := by
  have huprooted (j : NodeId) : t.Uprooted [n.entity] j ↔ t.Under i j := by
    constructor
    · rintro ⟨k, m, hm, -, he, hkj⟩
      obtain rfl := hunique hm (List.mem_singleton.mp he)
      exact hkj
    · exact fun hij => ⟨i, n, hn, horigin, by simp, hij⟩
  refine ⟨huprooted, detach_forest ht hn, fun hj => ?_, fun hout => ?_⟩
  · exact node?_detach_of_under ht hn ((huprooted _).mp hj)
  · rw [node?_detach ht hn fun hij => hout ((huprooted _).mpr hij), Option.map_map]
    rfl

theorem Grows.uproots_detach {base : Containment} (h : Grows base t) (hn : t.node? i = some n)
    (hle : base.issued ≤ i) (horigin : n.origin = .host) :
    (∀ j, t.Uprooted [n.entity] j ↔ t.Under i j) ∧ t.Uproots [n.entity] (t.detach i).1 :=
  uproots_detach_of_unique h.forest hn horigin fun hm he => h.unique hn hle hm he

section untwinned

/-- Taking entities out makes no twins. -/
theorem Uproots.untwinned (h : t.Uproots es u) (ht : t.Untwinned) : u.Untwinned := by
  rintro e ⟨i, j, p, q, hne, ⟨n, hn, rfl, -⟩, ⟨m, hm, he, -⟩⟩
  obtain ⟨-, n', hn', hplaced⟩ := h.node? hn
  obtain ⟨-, m', hm', hplaced'⟩ := h.node? hm
  refine hne (ht.eq hm' hn' ?_)
  rw [(Node.placed_inj hplaced).1, (Node.placed_inj hplaced').1, he]

/-- Nodes of the host make no twins. -/
theorem Grows.untwinned {base : Containment} (h : Grows base t) (hbase : base.Untwinned) :
    t.Untwinned := by
  rintro e ⟨i, j, p, q, hne, ⟨n, hn, rfl, -⟩, ⟨m, hm, he, -⟩⟩
  by_cases hi : base.issued ≤ i
  · exact hne (h.unique hn hi hm he).symm
  by_cases hj : base.issued ≤ j
  · exact hne (h.unique hm hj hn he.symm)
  obtain ⟨n₀, hn₀⟩ := h.old hn (Nat.lt_of_not_le hi)
  obtain ⟨m₀, hm₀⟩ := h.old hm (Nat.lt_of_not_le hj)
  obtain ⟨n', hn', hentity, -⟩ := h.node? hn₀
  obtain ⟨m', hm', hentity', -⟩ := h.node? hm₀
  obtain rfl := Option.some.inj (hn.symm.trans hn')
  obtain rfl := Option.some.inj (hm.symm.trans hm')
  exact hne (hbase.eq hm₀ hn₀ (hentity.symm.trans (he.symm.trans hentity')))

end untwinned

section leaves

variable {base v : Containment}

/-- Where nothing lies below the nodes that go, they are all that goes. -/
theorem Grows.loses_iff (h : Grows base t) (hleaf : ∀ e ∈ es, t.Guest e → ∀ d, ¬ t.Contains e d) :
    t.Loses es e ↔ e ∈ es ∧ t.Guest e := by
  constructor
  · rintro ⟨j, m, ⟨i, n, hn, horigin, he, hij⟩, hm, rfl⟩
    rcases hij.cases_top with rfl | ⟨n', c, hn', hc, -⟩
    · obtain rfl := Option.some.inj (hn.symm.trans hm)
      exact ⟨he, j, n, hn, rfl, horigin⟩
    · obtain rfl := Option.some.inj (hn.symm.trans hn')
      obtain ⟨m', hm', hparent⟩ := h.forest.child hn hc
      exact absurd ⟨c, m', i, n, hm', hparent, hn, rfl, rfl⟩
        (hleaf _ he ⟨i, n, hn, rfl, horigin⟩ m'.entity)
  · rintro ⟨he, j, n, hn, rfl, horigin⟩
    exact ⟨j, n, ⟨j, n, hn, horigin, he, .refl⟩, hn, rfl⟩

/-- A parent does not go without its children. -/
theorem Grows.loses_child {p c : Entity} (h : Grows base t) (hbase : base.Own)
    (hc : t.Contains p c) (hp : t.Loses es p) : t.Loses es c := by
  obtain ⟨i, n, j, m, hn, hparent, hm, rfl, rfl⟩ := hc
  obtain ⟨k, m', hk, hm', hentity⟩ := hp
  obtain ⟨top, n', htop, horigin, -, hunder⟩ := id hk
  have hle := Nat.le_trans ((h.origin_eq_host hbase htop).mp horigin) (hunder.le h.forest)
  obtain rfl := h.unique hm' hle hm hentity.symm
  exact ⟨i, n, hk.under (Under.refl.of_parent h.forest hn hparent), hn, rfl⟩

/-- What is lost was held by no other node. -/
theorem Uproots.has_iff (ht : Grows base t) (hbase : base.Own) (h : t.Uproots es u) :
    u.Has e ↔ t.Has e ∧ ¬ t.Loses es e := by
  constructor
  · rintro ⟨j, m, hm, rfl⟩
    obtain ⟨hout, n, hn, hplaced⟩ := h.node? hm
    have hentity := (Node.placed_inj hplaced).1
    refine ⟨⟨j, n, hn, hentity⟩, fun ⟨k, n', hk, hn', he⟩ => ?_⟩
    obtain ⟨i, top, htop, horigin, -, hik⟩ := id hk
    have hle := Nat.le_trans ((ht.origin_eq_host hbase htop).mp horigin) (hik.le ht.forest)
    exact hout (ht.unique hn' hle hn (hentity.trans he.symm) ▸ hk)
  · rintro ⟨⟨j, n, hn, rfl⟩, hkept⟩
    obtain ⟨m, hm, hplaced⟩ := h.node?_of_kept hn fun hj => hkept ⟨j, n, hj, hn, rfl⟩
    exact ⟨j, m, hm, (Node.placed_inj hplaced).1⟩

/-- Where nothing lies below the nodes that go, each of them is of the host and holds an entity that
is taken out. -/
theorem Grows.guest_of_uprooted (ht : Grows base t) (hbase : base.Own)
    (hleaf : ∀ e ∈ es, t.Guest e → ∀ d, ¬ t.Contains e d) (hn : t.node? j = some n)
    (hj : t.Uprooted es j) : n.entity ∈ es ∧ n.origin = .host := by
  obtain ⟨he, k, m, hm, hentity, horigin⟩ := (ht.loses_iff hleaf).mp ⟨j, n, hj, hn, rfl⟩
  obtain ⟨-, rfl⟩ := ht.eq_of_guest hbase hm horigin hn hentity.symm
  exact ⟨he, horigin⟩

/-- Attaching what has been uprooted again. -/
theorem Uproots.samePlaces (ht : Grows base t) (hbase : base.Own) (htu : t.Uproots es u)
    (huv : u.Gains i fs v) (hleaf : ∀ e ∈ es, t.Guest e → ∀ d, ¬ t.Contains e d)
    (hunder : ∀ e ∈ es, t.Houses i e) (hagain : ∀ e ∈ es, e ∈ fs) (hhas : ∀ e ∈ fs, t.Has e) :
    t.SamePlaces v := by
  have hlost {e : Entity} := ht.loses_iff (e := e) hleaf
  have hchild {j : NodeId} {n : Node} (hn : t.node? j = some n) (he : n.entity ∈ es)
      (horigin : n.origin = .host) : n.parent = some i := by
    obtain ⟨k, m, hm, hparent, hentity⟩ := hunder _ he
    obtain ⟨-, rfl⟩ := ht.eq_of_guest hbase hn horigin hm hentity
    exact hparent
  refine ⟨fun p => ⟨?_, ?_⟩, fun {j c} hc => ?_⟩
  · rintro ⟨j, m, hm, rfl⟩
    rcases huv.fresh hm with ⟨n, hn, hplaced⟩ | ⟨-, hnew, he, horigin, hparent⟩
    · obtain ⟨-, n', hn', hplaced'⟩ := htu.node? hn
      exact ⟨j, n', hn', hplaced'.trans hplaced.symm⟩
    · rw [htu.has_iff ht hbase, not_and_not_right] at hnew
      obtain ⟨hes, k, n, hn, hentity, horigin'⟩ := hlost.mp (hnew (hhas _ he))
      have hup := hchild hn (hentity ▸ hes) horigin'
      exact ⟨k, n, hn, by simp [Node.placed, hentity, horigin', hup, horigin, hparent]⟩
  · rintro ⟨j, n, hn, rfl⟩
    by_cases hj : t.Uprooted es j
    · -- its entity is attached again, and under the same node
      obtain ⟨he, horigin⟩ := ht.guest_of_uprooted hbase hleaf hn hj
      obtain ⟨k, m, hm, hentity⟩ := huv.all _ (hagain _ he)
      rcases huv.fresh hm with ⟨n', hn', hplaced⟩ | ⟨-, -, -, horigin', hparent⟩
      · have hheld : u.Has n.entity := ⟨k, n', hn', (Node.placed_inj hplaced).1.symm.trans hentity⟩
        exact absurd ⟨j, n, hj, hn, rfl⟩ ((htu.has_iff ht hbase).mp hheld).2
      · exact ⟨k, m, hm, by
          simp [Node.placed, hentity, horigin', hparent, horigin, hchild hn he horigin]⟩
    · obtain ⟨m, hm, hplaced⟩ := htu.node?_of_kept hn hj
      obtain ⟨m', hm', hplaced'⟩ := huv.kept hm
      exact ⟨j, m', hm', hplaced'.trans hplaced⟩
  · obtain ⟨k, m, hm, hparent, rfl⟩ := hc
    obtain ⟨-, n, hn, -⟩ := ht.forest.parent hm hparent
    have hj : ¬ t.Uprooted es j := fun hj => by
      obtain ⟨he, horigin⟩ := ht.guest_of_uprooted hbase hleaf hn hj
      exact hleaf _ he ⟨j, n, hn, rfl, horigin⟩ _ ⟨k, m, j, n, hm, hparent, hn, rfl, rfl⟩
    obtain ⟨m', hm', hplaced⟩ := htu.node?_of_kept hn hj
    obtain ⟨m'', hm'', hplaced'⟩ := huv.kept hm'
    rw [entity?, entity?, hn, hm'', Option.map_some, Option.map_some]
    exact congrArg some ((Node.placed_inj hplaced').1.trans (Node.placed_inj hplaced).1)

end leaves

end DescriptorExchange.Containment
