import DescriptorExchange.Proofs.Containment.Growth

/-!
Where the entities of a tree are. Children that are attached under a node come into the tree unless it
holds them already, and nothing else moves. Two trees may hold the same entities in the same places
although some of the nodes have other ids, as long as these have nothing below them.
-/
namespace DescriptorExchange

/-- What is known of a node without looking below it. -/
def Node.placed (n : Node) : Entity × Origin × Option NodeId := (n.entity, n.origin, n.parent)

theorem Node.placed_inj {n m : Node} (h : n.placed = m.placed) :
    n.entity = m.entity ∧ n.origin = m.origin ∧ n.parent = m.parent := by
  simpa [Node.placed] using h

namespace Containment

variable {t u v : Containment} {i j : NodeId} {n m : Node} {c e : Entity} {es fs : List Entity}

/-- Some node holds the entity. -/
def Has (t : Containment) (e : Entity) : Prop := ∃ j n, t.node? j = some n ∧ n.entity = e

/-- A child of the node holds the entity. -/
def Houses (t : Containment) (i : NodeId) (e : Entity) : Prop :=
  ∃ j n, t.node? j = some n ∧ n.parent = some i ∧ n.entity = e

/-- A node of the host holds the entity. -/
def Guest (t : Containment) (e : Entity) : Prop :=
  ∃ j n, t.node? j = some n ∧ n.entity = e ∧ n.origin = .host

theorem Houses.has (h : t.Houses i e) : t.Has e := by
  obtain ⟨j, n, hn, -, he⟩ := h
  exact ⟨j, n, hn, he⟩

theorem findExact?_eq_none_iff : t.findExact? e = none ↔ ¬ t.Has e := by
  constructor
  · rintro hnone ⟨j, n, hn, he⟩
    exact findExact?_eq_none hnone hn he
  · intro h
    refine find?_eq_none.mpr fun j n hn => ?_
    simpa using fun he => h ⟨j, n, hn, he⟩

theorem findExact?_eq_some_iff : t.findExact? e = some i ↔ (∃ n, t.node? i = some n ∧ n.entity = e) ∧
    ∀ j n, t.node? j = some n → n.entity = e → i ≤ j := by
  simp [findExact?, find?_eq_some]

/-- The three ways of attaching a child: it is one already, it is somewhere else, or it is new. -/
theorem attach_cases (ht : t.Forest) (hn : t.node? i = some n) (e : Entity) :
    (t.Houses i e ∧ ∃ j, t.attach i e .host = .ok (t, .present j)) ∨
    (¬ t.Houses i e ∧ t.Has e ∧ ∃ err, t.attach i e .host = .error err) ∨
    (¬ t.Has e ∧ t.attach i e .host = .ok (t.under i n e .host, .created t.issued)) := by
  unfold attach
  simp only [hn]
  cases hfind : n.children.find? fun c => t.entity? c = some e with
  | some j =>
    obtain ⟨m, hm, he⟩ := entity?_eq_some.mp (by simpa using List.find?_some hfind)
    obtain ⟨m', hm', hparent⟩ := ht.child hn (List.mem_of_find?_eq_some hfind)
    obtain rfl := Option.some.inj (hm.symm.trans hm')
    exact .inl ⟨⟨j, m, hm, hparent, he⟩, j, rfl⟩
  | none =>
    have hhouses : ¬ t.Houses i e := by
      rintro ⟨j, m, hm, hparent, he⟩
      obtain ⟨-, n', hn', hmem⟩ := ht.parent hm hparent
      obtain rfl := Option.some.inj (hn.symm.trans hn')
      have hne := List.find?_eq_none.mp hfind j hmem
      simp [entity?, hm, he] at hne
    cases hexact : t.findExact? e with
    | some j =>
      obtain ⟨m, hm, he⟩ := findExact?_eq_some hexact
      exact .inr (.inl ⟨hhouses, ⟨j, m, hm, he⟩, _, rfl⟩)
    | none => exact .inr (.inr ⟨findExact?_eq_none_iff.mp hexact, rfl⟩)

/-- The tree with those of the entities under a node that it does not hold yet. -/
structure Gains (t : Containment) (i : NodeId) (es : List Entity) (u : Containment) : Prop where
  issued : t.issued ≤ u.issued
  kept : ∀ {j n}, t.node? j = some n → ∃ m, u.node? j = some m ∧ m.placed = n.placed
  fresh : ∀ {j m}, u.node? j = some m → (∃ n, t.node? j = some n ∧ m.placed = n.placed) ∨
    (t.issued ≤ j ∧ ¬ t.Has m.entity ∧ m.entity ∈ es ∧ m.origin = .host ∧ m.parent = some i)
  all : ∀ e ∈ es, u.Has e

namespace Gains

theorem refl (t : Containment) (i : NodeId) : t.Gains i [] t where
  issued := Nat.le_refl _
  kept hn := ⟨_, hn, rfl⟩
  fresh hm := .inl ⟨_, hm, rfl⟩
  all e he := by simp at he

/-- An entity that the tree holds already adds nothing. -/
theorem of_has (h : t.Has e) : t.Gains i [e] t where
  issued := Nat.le_refl _
  kept hn := ⟨_, hn, rfl⟩
  fresh hm := .inl ⟨_, hm, rfl⟩
  all _ he := List.mem_singleton.mp he ▸ h

theorem under (ht : t.Forest) (hn : t.node? i = some n) (h : ¬ t.Has e) :
    t.Gains i [e] (t.under i n e .host) where
  issued := Nat.le_succ _
  kept hm := by
    obtain ⟨m, hm', hentity, horigin, hparent, -⟩ := node?_under_of_node? e .host ht hn hm
    exact ⟨m, hm', by simp [Node.placed, hentity, horigin, hparent]⟩
  fresh hm := by
    rcases node?_of_node?_under hn hm with ⟨rfl, rfl⟩ | ⟨m, hm', hentity, horigin, hparent, -⟩
    · exact .inr ⟨Nat.le_refl _, h, by simp, rfl, rfl⟩
    · exact .inl ⟨m, hm', by simp [Node.placed, hentity, horigin, hparent]⟩
  all _ he := List.mem_singleton.mp he ▸ ⟨_, _, node?_under_issued ht hn, rfl⟩

/-- Whether the child was there already or not. -/
theorem attach {placement : Placement} (ht : t.Forest) (hn : t.node? i = some n)
    (h : t.attach i e .host = .ok (u, placement)) : t.Gains i [e] u := by
  rcases attach_cases ht hn e with ⟨hhouses, j, heq⟩ | ⟨-, -, err, heq⟩ | ⟨hnew, heq⟩
  · obtain ⟨rfl, -⟩ := Prod.mk.inj (Except.ok.inj (h.symm.trans heq))
    exact .of_has hhouses.has
  · simp [heq] at h
  · obtain ⟨rfl, -⟩ := Prod.mk.inj (Except.ok.inj (h.symm.trans heq))
    exact .under ht hn hnew

theorem has_iff (h : t.Gains i es u) : u.Has e ↔ t.Has e ∨ e ∈ es := by
  constructor
  · rintro ⟨j, m, hm, rfl⟩
    rcases h.fresh hm with ⟨n, hn, hplaced⟩ | ⟨-, -, he, -⟩
    · exact .inl ⟨j, n, hn, (Node.placed_inj hplaced).1.symm⟩
    · exact .inr he
  · rintro (⟨j, n, hn, rfl⟩ | he)
    · obtain ⟨m, hm, hplaced⟩ := h.kept hn
      exact ⟨j, m, hm, (Node.placed_inj hplaced).1⟩
    · exact h.all e he

theorem houses (h : t.Gains i es u) (he : t.Houses j e) : u.Houses j e := by
  obtain ⟨k, n, hn, hparent, rfl⟩ := he
  obtain ⟨m, hm, hplaced⟩ := h.kept hn
  obtain ⟨hentity, -, hup⟩ := Node.placed_inj hplaced
  exact ⟨k, m, hm, hup.trans hparent, hentity⟩

/-- An entity of the tree stays where it is. -/
theorem houses_iff_of_has (h : t.Gains i es u) (he : t.Has e) : u.Houses j e ↔ t.Houses j e := by
  refine ⟨?_, h.houses⟩
  rintro ⟨k, m, hm, hparent, rfl⟩
  rcases h.fresh hm with ⟨n, hn, hplaced⟩ | ⟨-, hnew, -⟩
  · obtain ⟨hentity, -, hup⟩ := Node.placed_inj hplaced
    exact ⟨k, n, hn, hup ▸ hparent, hentity.symm⟩
  · exact absurd he hnew

/-- An entity that is new is under the node. -/
theorem houses_of_mem (h : t.Gains i es u) (he : e ∈ es) (hnew : ¬ t.Has e) : u.Houses i e := by
  obtain ⟨j, m, hm, rfl⟩ := h.all e he
  rcases h.fresh hm with ⟨n, hn, hplaced⟩ | ⟨-, -, -, -, hparent⟩
  · exact absurd ⟨j, n, hn, (Node.placed_inj hplaced).1.symm⟩ hnew
  · exact ⟨j, m, hm, hparent, rfl⟩

/-- The first node that holds an entity stays the first one. -/
theorem findExact? (h : t.Gains i es u) (ht : t.Forest) (hfind : t.findExact? e = some j) :
    u.findExact? e = some j := by
  obtain ⟨⟨n, hn, he⟩, hmin⟩ := findExact?_eq_some_iff.mp hfind
  obtain ⟨m, hm, hplaced⟩ := h.kept hn
  refine findExact?_eq_some_iff.mpr ⟨⟨m, hm, (Node.placed_inj hplaced).1.trans he⟩, ?_⟩
  intro k m' hm' he'
  rcases h.fresh hm' with ⟨n', hn', hplaced'⟩ | ⟨hle, -⟩
  · exact hmin k n' hn' ((Node.placed_inj hplaced').1.symm.trans he')
  · exact Nat.le_trans (Nat.le_of_lt (ht.issued hn)) hle

theorem trans (htu : t.Gains i es u) (huv : u.Gains i fs v) : t.Gains i (es ++ fs) v where
  issued := Nat.le_trans htu.issued huv.issued
  kept hn := by
    obtain ⟨m, hm, hplaced⟩ := htu.kept hn
    obtain ⟨m', hm', hplaced'⟩ := huv.kept hm
    exact ⟨m', hm', hplaced'.trans hplaced⟩
  fresh {j m} hm := by
    rcases huv.fresh hm with ⟨n, hn, hplaced⟩ | ⟨hle, hnew, he, horigin, hparent⟩
    · obtain ⟨hentity, horigin, hparent⟩ := Node.placed_inj hplaced
      rcases htu.fresh hn with ⟨n', hn', hplaced'⟩ | ⟨hle, hnew, he, horigin', hparent'⟩
      · exact .inl ⟨n', hn', hplaced.trans hplaced'⟩
      · refine .inr ⟨hle, hentity ▸ hnew, List.mem_append_left _ (hentity ▸ he), ?_, ?_⟩
        · exact horigin.trans horigin'
        · exact hparent.trans hparent'
    · refine .inr ⟨Nat.le_trans htu.issued hle, fun hhas => hnew (htu.has_iff.mpr (.inl hhas)), ?_,
        horigin, hparent⟩
      exact List.mem_append_right _ he
  all e he := by
    rcases List.mem_append.mp he with he | he
    · exact huv.has_iff.mpr (.inl (htu.all e he))
    · exact huv.all e he

end Gains

/-- The same entities are in the same places. Nodes with something below them have their ids. -/
structure SamePlaces (t u : Containment) : Prop where
  placed : ∀ p, (∃ j m, u.node? j = some m ∧ m.placed = p) ↔ ∃ j n, t.node? j = some n ∧ n.placed = p
  above : ∀ {i e}, t.Houses i e → u.entity? i = t.entity? i

namespace SamePlaces

theorem refl (t : Containment) : t.SamePlaces t := ⟨fun _ => Iff.rfl, fun _ => rfl⟩

theorem houses_iff (h : t.SamePlaces u) : u.Houses i e ↔ t.Houses i e := by
  constructor
  · rintro ⟨j, m, hm, hparent, rfl⟩
    obtain ⟨k, n, hn, hplaced⟩ := (h.placed m.placed).mp ⟨j, m, hm, rfl⟩
    obtain ⟨hentity, -, hup⟩ := Node.placed_inj hplaced
    exact ⟨k, n, hn, hup.trans hparent, hentity⟩
  · rintro ⟨j, n, hn, hparent, rfl⟩
    obtain ⟨k, m, hm, hplaced⟩ := (h.placed n.placed).mpr ⟨j, n, hn, rfl⟩
    obtain ⟨hentity, -, hup⟩ := Node.placed_inj hplaced
    exact ⟨k, m, hm, hup.trans hparent, hentity⟩

theorem has_iff (h : t.SamePlaces u) : u.Has e ↔ t.Has e := by
  constructor
  · rintro ⟨j, m, hm, rfl⟩
    obtain ⟨k, n, hn, hplaced⟩ := (h.placed m.placed).mp ⟨j, m, hm, rfl⟩
    exact ⟨k, n, hn, (Node.placed_inj hplaced).1⟩
  · rintro ⟨j, n, hn, rfl⟩
    obtain ⟨k, m, hm, hplaced⟩ := (h.placed n.placed).mpr ⟨j, n, hn, rfl⟩
    exact ⟨k, m, hm, (Node.placed_inj hplaced).1⟩

theorem guest_iff (h : t.SamePlaces u) : u.Guest e ↔ t.Guest e := by
  constructor
  · rintro ⟨j, m, hm, rfl, hhost⟩
    obtain ⟨k, n, hn, hplaced⟩ := (h.placed m.placed).mp ⟨j, m, hm, rfl⟩
    obtain ⟨hentity, horigin, -⟩ := Node.placed_inj hplaced
    exact ⟨k, n, hn, hentity, horigin.trans hhost⟩
  · rintro ⟨j, n, hn, rfl, hhost⟩
    obtain ⟨k, m, hm, hplaced⟩ := (h.placed n.placed).mpr ⟨j, n, hn, rfl⟩
    obtain ⟨hentity, horigin, -⟩ := Node.placed_inj hplaced
    exact ⟨k, m, hm, hentity, horigin.trans hhost⟩

theorem trans (htu : t.SamePlaces u) (huv : u.SamePlaces v) : t.SamePlaces v where
  placed p := (huv.placed p).trans (htu.placed p)
  above h := (huv.above (htu.houses_iff.mpr h)).trans (htu.above h)

theorem contains_iff (ht : t.Forest) (hu : u.Forest) (h : t.SamePlaces u) {p : Entity} :
    u.Contains p c ↔ t.Contains p c := by
  have hpair {w : Containment} (hw : w.Forest) :
      w.Contains p c ↔ ∃ i, w.Houses i c ∧ w.entity? i = some p := by
    constructor
    · rintro ⟨j, n, i, m, hn, hparent, hm, hp, hc⟩
      exact ⟨i, ⟨j, n, hn, hparent, hc⟩, entity?_eq_some.mpr ⟨m, hm, hp⟩⟩
    · rintro ⟨i, ⟨j, n, hn, hparent, hc⟩, hp⟩
      obtain ⟨m, hm, hp⟩ := entity?_eq_some.mp hp
      exact ⟨j, n, i, m, hn, hparent, hm, hp, hc⟩
  rw [hpair ht, hpair hu]
  refine exists_congr fun i => ?_
  rw [h.houses_iff]
  exact and_congr_right fun hi => by rw [h.above hi]

end SamePlaces

section lookup

variable {base : Containment} (ht : Grows base t) (hu : Grows base u)

include ht hu in
/-- A node of the topology is found in every tree grown on it. -/
theorem Grows.findExact?_own (hlt : i < base.issued) (hfind : t.findExact? e = some i) :
    u.findExact? e = some i := by
  have hsame {w w' : Containment} (hw : Grows base w) (hw' : Grows base w') {k : NodeId} {m : Node}
      (hk : k < base.issued) (hm : w.node? k = some m) :
      ∃ m', w'.node? k = some m' ∧ m'.entity = m.entity := by
    obtain ⟨b, hb⟩ := hw.old hm hk
    obtain ⟨m', hm', he', -⟩ := hw.node? hb
    obtain rfl := Option.some.inj (hm.symm.trans hm')
    obtain ⟨m'', hm'', he'', -⟩ := hw'.node? hb
    exact ⟨m'', hm'', he''.trans he'.symm⟩
  obtain ⟨⟨n, hn, rfl⟩, hmin⟩ := findExact?_eq_some_iff.mp hfind
  refine findExact?_eq_some_iff.mpr ⟨hsame ht hu hlt hn, fun k m hm hk => ?_⟩
  by_contra hki
  obtain ⟨n', hn', he⟩ := hsame hu ht (Nat.lt_trans (Nat.lt_of_not_le hki) hlt) hm
  exact hki (hmin k n' hn' (he.trans hk))

include ht hu in
/-- An entity is found in the same place in both trees, under the same id if it has children. -/
theorem SamePlaces.findExact? (h : t.SamePlaces u) (hfind : t.findExact? e = some i) :
    ∃ j, u.findExact? e = some j ∧ (∀ c, u.Houses j c ↔ t.Houses i c) ∧
      ∀ c, t.Houses i c → j = i := by
  by_cases hle : base.issued ≤ i
  swap
  · have hfound := ht.findExact?_own hu (Nat.lt_of_not_le hle) hfind
    exact ⟨i, hfound, fun c => h.houses_iff, fun _ _ => rfl⟩
  obtain ⟨⟨n, hn, rfl⟩, -⟩ := findExact?_eq_some_iff.mp hfind
  have hhas : u.Has n.entity := h.has_iff.mpr ⟨i, n, hn, rfl⟩
  obtain ⟨j, hj⟩ := Option.ne_none_iff_exists'.mp (mt findExact?_eq_none_iff.mp (not_not.mpr hhas))
  have hle' : base.issued ≤ j := by
    by_contra hlt
    have hback := hu.findExact?_own ht (Nat.lt_of_not_le hlt) hj
    exact hlt (Option.some.inj (hfind.symm.trans hback) ▸ hle)
  obtain ⟨m, hm, hentity⟩ := findExact?_eq_some hj
  have hup {c : Entity} (hc : t.Houses i c) : j = i := by
    have heq := h.above hc
    obtain ⟨m', hm', he⟩ := entity?_eq_some.mp (heq.trans (entity?_eq_some.mpr ⟨n, hn, rfl⟩))
    exact (hu.unique hm hle' hm' (he.trans hentity.symm)).symm
  refine ⟨j, hj, fun c => ⟨fun hc => ?_, fun hc => hup hc ▸ h.houses_iff.mpr hc⟩, fun c => hup⟩
  have hc' := h.houses_iff.mp hc
  have heq := h.above hc'
  obtain ⟨n', hn', he⟩ := entity?_eq_some.mp (heq.symm.trans (entity?_eq_some.mpr ⟨m, hm, hentity⟩))
  exact ht.unique hn hle hn' he ▸ hc'

end lookup

end Containment
end DescriptorExchange
