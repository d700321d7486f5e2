import DescriptorExchange.Configuration
import DescriptorExchange.Proofs.Containment.Twins
import DescriptorExchange.Proofs.Wire.Reader

/-!
Entities that a configured topology puts in the tree twice. The topology is planted by the same
changes as any other tree, and nothing is detached meanwhile. So an entity is held twice just if the
topology lists it with a parent and without one.
-/
namespace DescriptorExchange

open Containment

namespace Containment

variable {t u : Containment} {e f : Entity}

/-- A root holds the entity, or a node below another one does. -/
def Placed (t : Containment) (e : Entity) (root : Bool) : Prop :=
  ∃ i p, t.Holds i e p ∧ p.isNone = root

/-- A tree that holds what another one does, and an entity besides where it may hold it already. -/
theorem placed_of_added (parent : Option NodeId) {root : Bool}
    (h : ((∃ i, t.Holds i e parent) ∧ u = t) ∨ ∀ i f p, u.Holds i f p ↔
      t.Holds i f p ∨ (i = t.issued ∧ f = e ∧ p = parent)) :
    u.Placed f root ↔ t.Placed f root ∨ (e = f ∧ parent.isNone = root) := by
  rcases h with ⟨⟨k, hk⟩, rfl⟩ | hholds
  · refine ⟨.inl, ?_⟩
    rintro (hplaced | ⟨rfl, rfl⟩)
    · exact hplaced
    · exact ⟨k, parent, hk, rfl⟩
  · simp only [Placed, hholds]
    constructor
    · rintro ⟨i, p, hold | ⟨-, rfl, rfl⟩, hroot⟩
      · exact .inl ⟨i, p, hold, hroot⟩
      · exact .inr ⟨rfl, hroot⟩
    · rintro (⟨i, p, hold, hroot⟩ | ⟨rfl, rfl⟩)
      · exact ⟨i, p, .inl hold, hroot⟩
      · exact ⟨t.issued, parent, .inr ⟨rfl, rfl, rfl⟩, rfl⟩

theorem placed_addRoot {origin : Origin} {root : Bool} (ht : t.Forest) :
    (t.addRoot e origin).1.Placed f root ↔ t.Placed f root ∨ (e = f ∧ true = root) := by
  refine placed_of_added none ?_
  obtain hheld | ⟨-, heq⟩ := t.addRoot_cases e origin
  · exact .inl hheld
  · rw [heq]
    exact .inr fun i f p => holds_push_root ht

theorem placed_attach {parent : NodeId} {origin : Origin} {placement : Placement} {root : Bool}
    (ht : t.Forest) (h : t.attach parent e origin = .ok (u, placement)) :
    u.Placed f root ↔ t.Placed f root ∨ (e = f ∧ false = root) := by
  refine placed_of_added (some parent) ?_
  obtain ⟨above, ha, hheld | ⟨-, rfl⟩⟩ := attached_cases h ht
  · exact .inl hheld
  · exact .inr fun i f p => holds_under ht ha

/-- An entity is held twice if a root holds it and a node below another one does. -/
theorem Elder.twice_iff_placed (h : t.Elder) : t.Twice e ↔ t.Placed e false ∧ t.Placed e true := by
  rw [h.twice_iff]
  constructor
  · rintro ⟨i, j, parent, -, hi, hj⟩
    exact ⟨⟨i, some parent, hi, rfl⟩, ⟨j, none, hj, rfl⟩⟩
  · rintro ⟨⟨i, p, hi, hp⟩, ⟨j, q, hj, hq⟩⟩
    obtain ⟨parent, rfl⟩ := Option.isSome_iff_exists.mp (Option.isNone_eq_false_iff.mp hp)
    obtain rfl := Option.isNone_iff_eq_none.mp hq
    refine ⟨i, j, parent, ?_, hi, hj⟩
    rcases Nat.lt_trichotomy i j with hlt | rfl | hlt
    · exact hlt
    · exact absurd (hi.inj hj).2 (by simp)
    · exact absurd rfl (h j i e none (some parent) hlt hj hi).1

end Containment

namespace Configuration

variable {r s : Repository} {t t' : Containment} {e : Entity}

/-- Entries of the topology list an entity without a parent, or with one. -/
def Lists (entries : List TopologyEntry) (e : Entity) (root : Bool) : Prop :=
  ∃ entry ∈ entries, entry.entity = e ∧ entry.parent.isNone = root

theorem lists_cons {entry : TopologyEntry} {entries : List TopologyEntry} {root : Bool} :
    Lists (entry :: entries) e root ↔
      (entry.entity = e ∧ entry.parent.isNone = root) ∨ Lists entries e root := by
  simp [Lists]

/-- Planting a topology changes the tree step by step, and places each entity as it is listed. -/
theorem plant_places {entries : List TopologyEntry} (ht : t.Unrepeated)
    (hplant : plant entries (r, t) = .ok (s, t')) :
    (∃ changes, t' = t.afterAll changes) ∧
      ∀ e root, t'.Placed e root ↔ t.Placed e root ∨ Lists entries e root := by
  induction entries generalizing r t with
  | nil =>
    obtain ⟨rfl, rfl⟩ := Prod.mk.inj (Except.ok.inj hplant)
    exact ⟨⟨[], rfl⟩, by simp [Lists]⟩
  | cons entry entries ih =>
    unfold plant at hplant
    split at hplant
    next hroot =>
      obtain ⟨⟨changes, hchanges⟩, hplaces⟩ := ih (ht.after (.addRoot entry.entity .own)) hplant
      refine ⟨⟨.addRoot entry.entity .own :: changes, hchanges⟩, fun e root => ?_⟩
      rw [hplaces, after, placed_addRoot ht.forest, lists_cons, or_assoc, hroot]
      rfl
    next parent hparent =>
      split at hplant
      next => simp at hplant
      next id _ =>
        split at hplant
        next => simp at hplant
        next grown placement hattach =>
          split at hplant
          next => simp at hplant
          next mid k _ =>
            have hafter : t.after (.attach id entry.entity .own) = grown := by rw [after, hattach]
            have hgrown : grown.Unrepeated := hafter ▸ ht.after _
            obtain ⟨⟨changes, hchanges⟩, hplaces⟩ := ih hgrown hplant
            refine ⟨⟨.attach id entry.entity .own :: changes, ?_⟩, fun e root => ?_⟩
            · rw [hchanges, ← hafter]
              rfl
            · rw [hplaces, placed_attach ht.forest hattach, lists_cons, or_assoc, hparent]
              rfl

end Configuration

/-- After any changes two nodes hold the same entity only if the elder lives below another node and
the younger is a root, and just if the root was added while the elder lived there and both are live.
The tree of a configuration is one of these trees, and holds an entity twice just if the topology
lists it with a parent and without one. -/
theorem Containment.held_twice_iff (changes : List Change) (e : Entity) :
    (∀ i j p q, i < j → (empty.afterAll changes).Holds i e p →
      (empty.afterAll changes).Holds j e q → p ≠ none ∧ q = none) ∧
    ((empty.afterAll changes).Twice e ↔ ∃ pre origin post i,
      changes = pre ++ .addRoot e origin :: post ∧ (empty.afterAll pre).Doubles i e ∧
      ((empty.afterAll changes).node? i).isSome ∧
      ((empty.afterAll changes).node? (empty.afterAll pre).issued).isSome) ∧
    ∀ (c : Configuration) (r : Repository) (t : Containment), c.seed = .ok (r, t) →
      (∃ changes, t = empty.afterAll changes) ∧
      (t.Twice e ↔ (∃ a ∈ c.topology, a.entity = e ∧ a.parent ≠ none) ∧
        ∃ b ∈ c.topology, b.entity = e ∧ b.parent = none) := by
  refine ⟨fun i j p q => Elder.empty.afterAll changes Unrepeated.empty i j e p q,
    twice_afterAll_iff changes, fun c r t hseed => ?_⟩
  obtain ⟨⟨changes, rfl⟩, hplaces⟩ := Configuration.plant_places Unrepeated.empty hseed
  have helder : (empty.afterAll changes).Elder := Elder.empty.afterAll changes Unrepeated.empty
  have hbare (e : Entity) (root : Bool) : ¬ empty.Placed e root := by
    rintro ⟨i, p, ⟨n, hn, -⟩, -⟩
    simp [node?, empty] at hn
  refine ⟨⟨changes, rfl⟩, ?_⟩
  rw [helder.twice_iff_placed, hplaces, hplaces, or_iff_right (hbare e false),
    or_iff_right (hbare e true)]
  simp [Configuration.Lists, Option.isSome_iff_ne_none]

/-- A system and a chassis in it, configured in the order of the containment. -/
def chassisEntries : List TopologyEntry :=
  [⟨⟨11521, 1, 0⟩, none, false⟩, ⟨⟨45, 1, 1⟩, some ⟨11521, 1, 0⟩, false⟩]

/-- The chassis is in the tree once. -/
theorem Containment.held_twice_iff_chassis :
    ∃ r t, { Configuration.standard with topology := chassisEntries }.seed = .ok (r, t) ∧
      t.Holds 1 ⟨45, 1, 1⟩ (some 0) ∧ ∀ e, ¬ t.Twice e := by
  let c : Configuration := { Configuration.standard with topology := chassisEntries }
  have hseeded : c.seed.toOption.any (fun own => own.2.Holds 1 ⟨45, 1, 1⟩ (some 0)) = true := by
    decide +kernel
  obtain ⟨⟨r, t⟩, hsome, hholds⟩ := (Option.any_eq_true _ _).mp hseeded
  have hseed : c.seed = .ok (r, t) := toOption_eq_some.mp hsome
  refine ⟨r, t, hseed, of_decide_eq_true hholds, fun e htwice => ?_⟩
  obtain ⟨⟨a, ha, rfl, hparent⟩, b, hb, heq, hroot⟩ :=
    ((held_twice_iff [] e).2.2 c r t hseed).2.mp htwice
  have hlisted : ∀ a ∈ chassisEntries, a.parent ≠ none → ∀ b ∈ chassisEntries,
      b.entity = a.entity → b.parent ≠ none := by decide
  exact hlisted a ha hparent b hb heq hroot

/-- Listed with its parent and once more without one, the chassis is in the tree twice: as a root
beside the node in the system. -/
theorem Containment.root_doubles_chassis :
    (empty.afterAll [.addRoot ⟨11521, 1, 0⟩ .own, .attach 0 ⟨45, 1, 1⟩ .own,
        .addRoot ⟨45, 1, 1⟩ .own]).Twice ⟨45, 1, 1⟩ ∧
      ∃ (c : Configuration) (r : Repository) (t : Containment), c.check = .ok () ∧
        c.seed = .ok (r, t) ∧ t.Twice ⟨45, 1, 1⟩ := by
  constructor
  · exact ⟨1, 2, some 0, none, by decide, by decide +kernel, by decide +kernel⟩
  let c : Configuration :=
    { Configuration.standard with topology := chassisEntries ++ [⟨⟨45, 1, 1⟩, none, false⟩] }
  have hseeded : c.seed.toOption.any (fun own =>
      own.2.Holds 1 ⟨45, 1, 1⟩ (some 0) ∧ own.2.Holds 2 ⟨45, 1, 1⟩ none) = true := by
    decide +kernel
  obtain ⟨⟨r, t⟩, hsome, hholds⟩ := (Option.any_eq_true _ _).mp hseeded
  obtain ⟨hone, htwo⟩ := of_decide_eq_true hholds
  exact ⟨c, r, t, rfl, toOption_eq_some.mp hsome, 1, 2, some 0, none, by decide, hone, htwo⟩

end DescriptorExchange
