import DescriptorExchange.Proofs.Containment.Removal

/-!
The controller's own topology with nodes of the host grown on it. Nodes of the host are the ones
younger than the topology; each holds an entity no other node holds, and nothing of the topology
lies below one. So whatever is removed, the topology stays, and once no node of the host is left
it is all there is.
-/
namespace DescriptorExchange.Containment

variable {base t t' : Containment} {i j id : NodeId} {n m : Node} {e : Entity}

/-- Every node is the controller's own. -/
def Own (t : Containment) : Prop := ∀ {id n}, t.node? id = some n → n.origin = .own

structure Grows (base t : Containment) : Prop where
  forest : t.Forest
  issued : base.issued ≤ t.issued
  kept : ∀ {id n}, base.node? id = some n → ∃ more,
    t.node? id = some { n with children := n.children ++ more } ∧ ∀ c ∈ more, base.issued ≤ c
  old : ∀ {id n}, t.node? id = some n → id < base.issued → ∃ m, base.node? id = some m
  guest : ∀ {id n}, t.node? id = some n → base.issued ≤ id → n.origin = .host ∧ n.parent ≠ none
  unique : ∀ {i n j m}, t.node? i = some n → base.issued ≤ i → t.node? j = some m →
    m.entity = n.entity → j = i

theorem Grows.refl (hbase : base.Forest) : Grows base base where
  forest := hbase
  issued := Nat.le_refl _
  kept {id n} hn := ⟨[], by simpa using hn, by simp⟩
  old hn _ := ⟨_, hn⟩
  guest hn hle := absurd (hbase.issued hn) (Nat.not_lt.mpr hle)
  unique hn hle := absurd (hbase.issued hn) (Nat.not_lt.mpr hle)

/-- A node of the topology is there with its entity and its origin. -/
theorem Grows.node? (h : Grows base t) (hn : base.node? id = some n) :
    ∃ m, t.node? id = some m ∧ m.entity = n.entity ∧ m.origin = n.origin ∧ m.parent = n.parent := by
  obtain ⟨more, hm, -⟩ := h.kept hn
  exact ⟨_, hm, rfl, rfl, rfl⟩

/-- The nodes of the host are the ones younger than the topology. -/
theorem Grows.origin_eq_host (hown : base.Own) (h : Grows base t) (hn : t.node? id = some n) :
    n.origin = .host ↔ base.issued ≤ id := by
  constructor
  · intro horigin
    by_contra hlt
    obtain ⟨m, hm⟩ := h.old hn (Nat.lt_of_not_le hlt)
    obtain ⟨n', hn', -, horigin', -⟩ := h.node? hm
    obtain rfl := Option.some.inj (hn.symm.trans hn')
    rw [hown hm, horigin] at horigin'
    simp at horigin'
  · intro hle
    exact (h.guest hn hle).1

/-- No other node holds the entity of a node of the host. -/
theorem Grows.eq_of_guest (hown : base.Own) (h : Grows base t) (hn : t.node? i = some n)
    (horigin : n.origin = .host) (hm : t.node? j = some m) (he : m.entity = n.entity) :
    j = i ∧ m = n := by
  obtain rfl := h.unique hn ((h.origin_eq_host hown hn).mp horigin) hm he
  exact ⟨rfl, Option.some.inj (hm.symm.trans hn)⟩

/-- An entity of the topology is held by no node of the host. -/
theorem Grows.guest_entity_ne (hbase : base.Forest) (h : Grows base t) (hn : t.node? i = some n)
    (hle : base.issued ≤ i) (hm : base.node? j = some m) : m.entity ≠ n.entity := by
  intro heq
  obtain ⟨m', hm', hentity, -⟩ := h.node? hm
  have hid := h.unique hn hle hm' (hentity.trans heq)
  exact absurd (hbase.issued hm) (Nat.not_lt.mpr (hid ▸ hle))

/-- What is contained without a node of the host holding it is contained in the topology. -/
theorem Grows.contains_base (hbase : base.Forest) (h : Grows base t) {p c : Entity}
    (hpc : t.Contains p c)
    (hown : ∀ {id n}, t.node? id = some n → base.issued ≤ id → n.entity ≠ c) :
    base.Contains p c := by
  obtain ⟨id, n, q, m, hn, hq, hm, rfl, rfl⟩ := hpc
  have hlt : id < base.issued := Nat.lt_of_not_le fun hle => hown hn hle rfl
  obtain ⟨n₀, hn₀⟩ := h.old hn hlt
  obtain ⟨n', hn', hentity, -, hparent⟩ := h.node? hn₀
  obtain rfl := Option.some.inj (hn.symm.trans hn')
  obtain ⟨-, m₀, hm₀, -⟩ := hbase.parent hn₀ (hparent ▸ hq)
  obtain ⟨m', hm', hentity', -⟩ := h.node? hm₀
  obtain rfl := Option.some.inj (hm.symm.trans hm')
  exact ⟨id, n₀, q, m₀, hn₀, hparent ▸ hq, hm₀, hentity'.symm, hentity.symm⟩

theorem Grows.under {parent : NodeId} {above : Node} (h : Grows base t)
    (ha : t.node? parent = some above)
    (hnew : t.findExact? e = none) : Grows base (t.under parent above e .host) where
  forest := h.forest.under ha
  issued := Nat.le_succ_of_le h.issued
  kept {id n} hn := by
    obtain ⟨more, hm, hle⟩ := h.kept hn
    rw [node?_under]
    have hold : id ≠ t.issued := Nat.ne_of_lt (h.forest.issued hm)
    by_cases hid : id = parent
    · obtain rfl := Option.some.inj (ha.symm.trans (hid ▸ hm))
      refine ⟨more ++ [t.issued], by simp [hid], fun c hc => ?_⟩
      rcases List.mem_append.mp hc with hc | hc
      · exact hle c hc
      · exact List.mem_singleton.mp hc ▸ h.issued
    · exact ⟨more, by simp [hid, hold, hm], hle⟩
  old {id n} hn hlt := by
    rcases node?_of_node?_under ha hn with ⟨rfl, -⟩ | ⟨m, hm, -⟩
    · exact absurd h.issued (Nat.not_le.mpr hlt)
    · exact h.old hm hlt
  guest {id n} hn hle := by
    rcases node?_of_node?_under ha hn with ⟨-, rfl⟩ | ⟨m, hm, -, horigin, hparent, -⟩
    · exact ⟨rfl, by simp⟩
    · rw [horigin, hparent]
      exact h.guest hm hle
  unique {i n j m} hn hle hm heq := by
    rcases node?_of_node?_under ha hn with ⟨rfl, rfl⟩ | ⟨n', hn', hentity, -⟩ <;>
      rcases node?_of_node?_under ha hm with ⟨rfl, rfl⟩ | ⟨m', hm', hentity', -⟩
    · rfl
    · exact absurd (hentity'.symm.trans heq) (findExact?_eq_none hnew hm')
    · exact absurd (hentity.symm.trans heq.symm) (findExact?_eq_none hnew hn')
    · exact h.unique hn' hle hm' (hentity'.symm.trans (heq.trans hentity))

theorem Grows.attach {parent : NodeId} {placement : Placement} (h : Grows base t)
    (hattach : t.attach parent e .host = .ok (t', placement)) : Grows base t' := by
  obtain ⟨above, ha, ⟨_, _, -, -, -, rfl, -⟩ | ⟨hnew, rfl, -⟩⟩ := attach_eq_ok hattach
  · exact h
  · exact h.under ha hnew

theorem Under.le (ht : t.Forest) (h : t.Under i j) : i ≤ j := by
  induction h with
  | refl => exact Nat.le_refl _
  | child _ hm hc ih =>
    obtain ⟨n, hn, hparent⟩ := ht.child hm hc
    exact Nat.le_trans ih (Nat.le_of_lt (ht.parent hn hparent).1)

theorem Grows.detach (hbase : base.Forest) (h : Grows base t) (hi : t.node? i = some n)
    (hle : base.issued ≤ i) : Grows base (t.detach i).1 where
  forest := detach_forest h.forest hi
  issued := by simpa using h.issued
  kept {id m} hm := by
    obtain ⟨more, hm', hmore⟩ := h.kept hm
    have hout : ¬ t.Under i id := fun hunder =>
      absurd (hbase.issued hm) (Nat.not_lt.mpr (Nat.le_trans hle (hunder.le h.forest)))
    have hchildren : m.children.filter (· ≠ i) = m.children := by
      apply List.filter_eq_self.mpr
      intro c hc
      obtain ⟨q, hq, -⟩ := hbase.child hm hc
      simpa using Nat.ne_of_lt (Nat.lt_of_lt_of_le (hbase.issued hq) hle)
    refine ⟨more.filter (· ≠ i), ?_, fun c hc => hmore c (List.mem_of_mem_filter hc)⟩
    rw [node?_detach h.forest hi hout, hm', Option.map_some, Node.without, List.filter_append,
      hchildren]
  old {id m} hm hlt := by
    obtain ⟨-, m', hm', -⟩ := (node?_detach_eq_some h.forest hi).mp hm
    exact h.old hm' hlt
  guest {id m} hm hle' := by
    obtain ⟨-, m', hm', rfl⟩ := (node?_detach_eq_some h.forest hi).mp hm
    exact ⟨(h.guest hm' hle').1, (h.guest hm' hle').2⟩
  unique {a m b m'} hm hle' hm' heq := by
    obtain ⟨-, q, hq, rfl⟩ := (node?_detach_eq_some h.forest hi).mp hm
    obtain ⟨-, q', hq', rfl⟩ := (node?_detach_eq_some h.forest hi).mp hm'
    exact h.unique hq hle' hq' heq

/-- A node of the host shares its entity, and those of all that lies below it, with no other node.
-/
theorem Grows.contains_detach (h : Grows base t) (hi : t.node? i = some n) (hle : base.issued ≤ i)
    (p c : Entity) :
    (t.detach i).1.Contains p c ↔ t.Contains p c ∧ p ∉ (t.detach i).2 ∧ c ∉ (t.detach i).2 :=
  Containment.contains_detach h.forest hi (fun hunder hm hm' heq =>
    h.unique hm (Nat.le_trans hle (hunder.le h.forest)) hm' heq) p c

/-- Without nodes of the host the topology is as it was. -/
theorem Grows.nodes_eq (h : Grows base t)
    (hnone : ∀ {id n}, t.node? id = some n → id < base.issued) :
    t.nodes = base.nodes := by
  refine Std.ExtTreeMap.ext_getElem? fun {id} => ?_
  change t.node? id = base.node? id
  cases hb : base.node? id with
  | some n =>
    obtain ⟨more, hm, hmore⟩ := h.kept hb
    have hnil : more = [] := by
      apply List.eq_nil_iff_forall_not_mem.mpr
      intro c hc
      obtain ⟨q, hq, -⟩ := h.forest.child hm (List.mem_append_right _ hc)
      exact absurd (hnone hq) (Nat.not_lt.mpr (hmore c hc))
    simpa [hnil] using hm
  | none =>
    cases ht : t.node? id with
    | none => rfl
    | some n =>
      obtain ⟨m, hm⟩ := h.old ht (hnone ht)
      simp [hb] at hm

end DescriptorExchange.Containment
