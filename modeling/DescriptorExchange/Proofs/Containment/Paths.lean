import DescriptorExchange.Proofs.Containment.Places
import DescriptorExchange.Proofs.Containment.Shape

/-!
Paths in a tree that changes. The path of a node is read off the way up to its root. Where one tree
is inside another, with every node in the same place, a node has the same path in both, although the
numbers of nodes, which bound the walk, differ.
-/
namespace DescriptorExchange.Containment

variable {t u : Containment} {i j id : NodeId} {n : Node}

/-- What is known of the node with an id, if there is one. -/
def placed? (t : Containment) (id : NodeId) : Option (Entity × Origin × Option NodeId) :=
  (t.node? id).map Node.placed

theorem isSome_node?_of_placed? (h : t.placed? i = u.placed? i) :
    (t.node? i).isSome = (u.node? i).isSome := by
  simpa only [placed?, Option.isSome_map] using congrArg Option.isSome h

theorem Forest.node?_of_le (ht : t.Forest) (hi : t.issued ≤ i) : t.node? i = none :=
  Option.eq_none_iff_forall_ne_some.mpr fun _ hn => Nat.not_lt.mpr hi (ht.issued hn)

/-- The nodes of the topology a tree is grown on are there, and no others as old. -/
theorem Grows.isSome_node?_of_lt (h : Grows u t) (hi : i < u.issued) :
    (t.node? i).isSome = (u.node? i).isSome := by
  cases hu : u.node? i with
  | some n =>
    obtain ⟨m, hm, -⟩ := h.node? hu
    rw [hm]
    rfl
  | none =>
    cases ht : t.node? i with
    | none => rfl
    | some m =>
      obtain ⟨n, hn⟩ := h.old ht hi
      simp [hu] at hn

/-- Every node of the one tree is a node of the other, in the same place. -/
def Inside (t u : Containment) : Prop :=
  ∀ {i n}, t.node? i = some n → ∃ m, u.node? i = some m ∧ m.placed = n.placed

/-- Trees that place their nodes alike, but for those that the second does not have. -/
theorem inside_of_placed? (h : ∀ i, (u.node? i).isSome → u.placed? i = t.placed? i) : u.Inside t := by
  intro i n hn
  have hsame := h i (by rw [hn]; rfl)
  rw [placed?, placed?, hn, Option.map_some] at hsame
  exact Option.map_eq_some_iff.mp hsame.symm

/-- The way up ends at a root or goes on from the parent. -/
theorem upward_eq_some {steps : Nat} {lineage : List Entity} (h : t.upward steps i = some lineage) :
    ∃ left n, steps = left + 1 ∧ t.node? i = some n ∧
      ((n.parent = none ∧ lineage = [n.entity]) ∨ ∃ p above, n.parent = some p ∧
        t.upward left p = some above ∧ lineage = n.entity :: above) := by
  cases steps with
  | zero => simp [upward] at h
  | succ left =>
    obtain ⟨n, hn, hrest⟩ := Option.bind_eq_some_iff.mp h
    refine ⟨left, n, rfl, hn, ?_⟩
    split at hrest
    next hp => exact .inl ⟨hp, (Option.some.inj hrest).symm⟩
    next p hp =>
      obtain ⟨above, habove, heq⟩ := Option.bind_eq_some_iff.mp hrest
      exact .inr ⟨p, above, hp, habove, (Option.some.inj heq).symm⟩

/-- The ways up from a node agree, whatever the bounds on their lengths. -/
theorem Inside.upward (h : t.Inside u) {steps more : Nat} {lineage lineage' : List Entity}
    (ht : t.upward steps i = some lineage) (hu : u.upward more i = some lineage') :
    lineage = lineage' := by
  induction lineage generalizing i steps more lineage' with
  | nil =>
    obtain ⟨_, _, -, -, ⟨-, heq⟩ | ⟨_, _, -, -, heq⟩⟩ := upward_eq_some ht <;> simp at heq
  | cons e above ih =>
    obtain ⟨left, n, rfl, hn, hcases⟩ := upward_eq_some ht
    obtain ⟨left', m, rfl, hm, hcases'⟩ := upward_eq_some hu
    obtain ⟨m', hm', hplaced⟩ := h hn
    obtain rfl := Option.some.inj (hm.symm.trans hm')
    obtain ⟨hentity, -, hparent⟩ := Node.placed_inj hplaced
    rcases hcases with ⟨hp, heq⟩ | ⟨p, rest, hp, hrest, heq⟩
    · rcases hcases' with ⟨-, heq'⟩ | ⟨p', _, hp', -, -⟩
      · rw [heq, heq', hentity]
      · rw [hp', hp] at hparent
        simp at hparent
    · obtain ⟨rfl, rfl⟩ := List.cons.inj heq
      rcases hcases' with ⟨hp', -⟩ | ⟨p', rest', hp', hrest', heq'⟩
      · rw [hp', hp] at hparent
        simp at hparent
      · obtain rfl : p' = p := Option.some.inj (hp'.symm.trans (hparent.trans hp))
        rw [heq', hentity, ih hrest hrest']

theorem Forest.exists_lineage (ht : t.Forest) (hi : t.node? i = some n) :
    ∃ lineage, t.lineage? i = some lineage := by
  obtain ⟨up, hup⟩ := Option.isSome_iff_exists.mp (ht.upward_isSome hi (t.olderThan_le_size i))
  exact ⟨up.reverse, by rw [lineage?, hup, Option.map_some]⟩

/-- Every node has a path. -/
theorem Forest.exists_path (ht : t.Forest) (names : EntityNames) (root : String)
    (hi : t.node? i = some n) : ∃ path, t.path? names root i = some path := by
  obtain ⟨lineage, hlineage⟩ := ht.exists_lineage hi
  exact ⟨names.path root lineage, by rw [path?, hlineage, Option.map_some]⟩

/-- A node has the same path in a tree and in one inside it. -/
theorem Inside.path? (h : t.Inside u) (ht : t.Forest) (hu : u.Forest) (names : EntityNames)
    (root : String) (hi : t.node? i = some n) : u.path? names root i = t.path? names root i := by
  obtain ⟨m, hm, -⟩ := h hi
  obtain ⟨up, hup⟩ := Option.isSome_iff_exists.mp (ht.upward_isSome hi (t.olderThan_le_size i))
  obtain ⟨up', hup'⟩ := Option.isSome_iff_exists.mp (hu.upward_isSome hm (u.olderThan_le_size i))
  simp only [Containment.path?, lineage?, hup, hup', h.upward hup hup']

section changes

variable {parent : NodeId} {above : Node} {e : Entity} {origin : Origin}

/-- A new node leaves the others in their places. -/
theorem placed?_under (ha : t.node? parent = some above) (hj : j ≠ t.issued) :
    (t.under parent above e origin).placed? j = t.placed? j := by
  unfold placed?
  rw [node?_under, if_neg hj]
  split_ifs with hparent
  · rw [hparent, ha]
    rfl
  · rfl

/-- So does the removal of a node, but for what lies below it. -/
theorem placed?_detach (ht : t.Forest) (hi : t.node? i = some n) (hj : ¬ t.Under i j) :
    (t.detach i).1.placed? j = t.placed? j := by
  rw [placed?, placed?, node?_detach ht hi hj, Option.map_map]
  rfl

end changes

end DescriptorExchange.Containment
