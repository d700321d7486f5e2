import DescriptorExchange.Containment
import DescriptorExchange.Proofs.Sorted
import Mathlib.Tactic.Common

/-!
The containment tree as a forest: a node and its parent agree about each other, and a child is
younger than its parent. The second is why a subtree is never deeper than the number of nodes.
-/
namespace DescriptorExchange

/-- A node that has lost a child. -/
def Node.without (n : Node) (child : NodeId) : Node :=
  { n with children := n.children.filter (· ≠ child) }

namespace Containment

variable {t t' : Containment} {i j id : NodeId} {n m : Node} {e : Entity} {p : Node → Bool}

structure Forest (t : Containment) : Prop where
  issued : ∀ {id n}, t.node? id = some n → id < t.issued
  parent : ∀ {id n p}, t.node? id = some n → n.parent = some p →
    p < id ∧ ∃ m, t.node? p = some m ∧ id ∈ m.children
  child : ∀ {id m c}, t.node? id = some m → c ∈ m.children →
    ∃ n, t.node? c = some n ∧ n.parent = some id

/-- A live node holds one entity, and its parent the other. -/
def Contains (t : Containment) (parent child : Entity) : Prop :=
  ∃ id n p m, t.node? id = some n ∧ n.parent = some p ∧ t.node? p = some m ∧
    m.entity = parent ∧ n.entity = child

section lookup

theorem mem_toList : (id, n) ∈ t.nodes.toList ↔ t.node? id = some n :=
  Std.ExtTreeMap.mem_toList_iff_getElem?_eq_some

theorem toList_pairwise (t : Containment) : t.nodes.toList.Pairwise fun a b => a.1 < b.1 := by
  have h := Std.ExtTreeMap.ordered_keys_toList (t := t.nodes)
  exact h.imp fun hab => by simpa [Nat.compare_eq_lt] using hab

theorem find?_eq_some : t.find? p = some id ↔ (∃ n, t.node? id = some n ∧ p n) ∧
    ∀ j m, t.node? j = some m → p m → id ≤ j := by
  unfold find?
  rw [Sorted.find?_key_eq_some_iff t.toList_pairwise]
  simp only [mem_toList]

theorem find?_eq_none : t.find? p = none ↔ ∀ id n, t.node? id = some n → ¬ p n := by
  simp only [find?, Option.map_eq_none_iff, List.find?_eq_none, Prod.forall, mem_toList]

theorem findExact?_eq_none (h : t.findExact? e = none) (hn : t.node? id = some n) :
    n.entity ≠ e := by
  simpa using find?_eq_none.mp h id n hn

theorem findExact?_eq_some (h : t.findExact? e = some id) :
    ∃ n, t.node? id = some n ∧ n.entity = e := by
  obtain ⟨⟨n, hn, hp⟩, -⟩ := find?_eq_some.mp h
  exact ⟨n, hn, by simpa using hp⟩

theorem entity?_eq_some : t.entity? id = some e ↔ ∃ n, t.node? id = some n ∧ n.entity = e := by
  simp [entity?]

theorem node?_push (t : Containment) (n : Node) (id : NodeId) :
    (t.push n).node? id = if id = t.issued then some n else t.node? id := by
  simp only [push, node?, Std.ExtTreeMap.getElem?_insert, Std.LawfulEqCmp.compare_eq_iff_eq]
  grind

theorem node?_insert (t : Containment) (j : NodeId) (n : Node) (id : NodeId) :
    ({ t with nodes := t.nodes.insert j n } : Containment).node? id =
      if id = j then some n else t.node? id := by
  simp only [node?, Std.ExtTreeMap.getElem?_insert, Std.LawfulEqCmp.compare_eq_iff_eq]
  grind

theorem mem_nodes_iff : id ∈ t.nodes ↔ (t.node? id).isSome := by
  rw [node?, Std.ExtTreeMap.isSome_getElem?_iff_mem]

theorem node?_erase (t : Containment) (j id : NodeId) :
    (t.erase j).node? id = if id = j then none else t.node? id := by
  unfold erase
  split
  next hnone =>
    split_ifs with hid
    · rw [hid, hnone]
    · rfl
  next =>
    simp only [node?, Std.ExtTreeMap.getElem?_erase, Std.LawfulEqCmp.compare_eq_iff_eq]
    grind

theorem node?_foldl_erase (t : Containment) (gone : List NodeId) (id : NodeId) :
    (gone.foldl erase t).node? id = if id ∈ gone then none else t.node? id := by
  induction gone generalizing t with
  | nil => simp
  | cons first rest ih =>
    simp only [List.foldl_cons, ih, node?_erase, List.mem_cons]
    grind

@[simp] theorem erase_issued (t : Containment) (j : NodeId) : (t.erase j).issued = t.issued := by
  unfold erase
  split <;> rfl

@[simp] theorem foldl_erase_issued (t : Containment) (gone : List NodeId) :
    (gone.foldl erase t).issued = t.issued := by
  induction gone generalizing t with
  | nil => rfl
  | cons first rest ih => rw [List.foldl_cons, ih, erase_issued]

end lookup

section growth

/-- The tree with a new node under another one. -/
def under (t : Containment) (parent : NodeId) (above : Node) (e : Entity) (origin : Origin) :
    Containment :=
  let grown := t.push { entity := e, origin, parent := some parent, children := [] }
  let linked := { above with children := above.children ++ [t.issued] }
  { grown with nodes := grown.nodes.insert parent linked }

theorem node?_under {parent : NodeId} {above : Node} {origin : Origin} :
    (t.under parent above e origin).node? id =
      if id = parent then some { above with children := above.children ++ [t.issued] }
      else if id = t.issued then some { entity := e, origin, parent := some parent, children := [] }
      else t.node? id := by
  unfold under
  rw [node?_insert, node?_push]

/-- Attaching succeeds on a child that is there already, or on an entity the tree does not hold. -/
theorem attach_eq_ok {parent : NodeId} {origin : Origin} {placement : Placement}
    (h : t.attach parent e origin = .ok (t', placement)) :
    ∃ above, t.node? parent = some above ∧
      ((∃ c n, c ∈ above.children ∧ t.node? c = some n ∧ n.entity = e ∧ t' = t ∧
      placement = .present c) ∨
        (t.findExact? e = none ∧ t' = t.under parent above e origin ∧
        placement = .created t.issued)) := by
  unfold attach at h
  cases ha : t.node? parent with
  | none => simp [ha] at h
  | some above =>
    refine ⟨above, rfl, ?_⟩
    simp only [ha] at h
    split at h
    next c hc =>
      obtain ⟨rfl, rfl⟩ := Prod.mk.inj (Except.ok.inj h)
      obtain ⟨n, hn, hne⟩ := entity?_eq_some.mp (by simpa using List.find?_some hc)
      exact .inl ⟨c, n, List.mem_of_find?_eq_some hc, hn, hne, rfl, rfl⟩
    next =>
      split at h
      next => simp at h
      next hnone =>
        obtain ⟨rfl, rfl⟩ := Prod.mk.inj (Except.ok.inj h)
        exact .inr ⟨hnone, rfl, rfl⟩

variable {parent : NodeId} {above : Node} {origin : Origin}

/-- A node that was there before keeps all it had. -/
theorem node?_under_of_node? (e : Entity) (origin : Origin) (ht : t.Forest)
    (ha : t.node? parent = some above) (hn : t.node? id = some n) :
    ∃ n', (t.under parent above e origin).node? id = some n' ∧ n'.entity = n.entity ∧
      n'.origin = n.origin ∧ n'.parent = n.parent ∧ ∀ c ∈ n.children, c ∈ n'.children := by
  rw [node?_under]
  split_ifs with h₁ h₂
  · subst h₁
    obtain rfl := Option.some.inj (ha.symm.trans hn)
    exact ⟨_, rfl, rfl, rfl, rfl, fun c hc => List.mem_append_left _ hc⟩
  · exact absurd (ht.issued hn) (h₂ ▸ Nat.lt_irrefl _)
  · exact ⟨n, hn, rfl, rfl, rfl, fun _ h => h⟩

/-- A node keeps its entity whatever is attached. -/
theorem node?_attach {placement : Placement} (ht : t.Forest)
    (h : t.attach parent e origin = .ok (t', placement)) (hn : t.node? id = some n) :
    ∃ n', t'.node? id = some n' ∧ n'.entity = n.entity := by
  obtain ⟨above, ha, ⟨_, _, -, -, -, rfl, -⟩ | ⟨-, rfl, -⟩⟩ := attach_eq_ok h
  · exact ⟨n, hn, rfl⟩
  · obtain ⟨n', hn', hentity, -⟩ := node?_under_of_node? e origin ht ha hn
    exact ⟨n', hn', hentity⟩

theorem node?_of_node?_under (ha : t.node? parent = some above)
    (hn : (t.under parent above e origin).node? id = some n) :
    (id = t.issued ∧ n = { entity := e, origin, parent := some parent, children := [] }) ∨
      ∃ m, t.node? id = some m ∧ n.entity = m.entity ∧ n.origin = m.origin ∧ n.parent = m.parent ∧
        n.children = m.children ++ if id = parent then [t.issued] else [] := by
  rw [node?_under] at hn
  split_ifs at hn with h₁ h₂
  · obtain rfl := Option.some.inj hn
    exact .inr ⟨above, h₁ ▸ ha, rfl, rfl, rfl, by simp [h₁]⟩
  · exact .inl ⟨h₂, (Option.some.inj hn).symm⟩
  · exact .inr ⟨n, hn, rfl, rfl, rfl, by simp [h₁]⟩

theorem node?_under_issued (ht : t.Forest) (ha : t.node? parent = some above) :
    (t.under parent above e origin).node? t.issued =
      some { entity := e, origin, parent := some parent, children := [] } := by
  rw [node?_under, if_neg fun h => Nat.lt_irrefl _ (h ▸ ht.issued ha), if_pos rfl]

theorem Forest.under (ht : t.Forest) (ha : t.node? parent = some above) :
    (t.under parent above e origin).Forest := by
  refine ⟨fun {id n} hn => ?_, fun {id n p} hn hp => ?_, fun {id m c} hm hc => ?_⟩
  · rcases node?_of_node?_under ha hn with ⟨rfl, -⟩ | ⟨m, hm, -⟩
    · exact Nat.lt_succ_self _
    · exact Nat.lt_succ_of_lt (ht.issued hm)
  · rcases node?_of_node?_under ha hn with ⟨rfl, rfl⟩ | ⟨m, hm, -, -, hparent, -⟩
    · obtain rfl := Option.some.inj hp
      refine ⟨ht.issued ha, _, by rw [node?_under, if_pos rfl], by simp⟩
    · obtain ⟨hlt, q, hq, hmem⟩ := ht.parent hm (hparent ▸ hp)
      obtain ⟨q', hq', -, -, -, hsub⟩ := node?_under_of_node? e origin ht ha hq
      exact ⟨hlt, q', hq', hsub id hmem⟩
  · rcases node?_of_node?_under ha hm with ⟨rfl, rfl⟩ | ⟨m', hm', -, -, -, hchildren⟩
    · simp at hc
    · rw [hchildren, List.mem_append] at hc
      rcases hc with hc | hc
      · obtain ⟨n, hn, hparent⟩ := ht.child hm' hc
        obtain ⟨n', hn', -, -, hparent', -⟩ := node?_under_of_node? e origin ht ha hn
        exact ⟨n', hn', hparent'.trans hparent⟩
      · split_ifs at hc with hid
        · obtain rfl := List.mem_singleton.mp hc
          exact ⟨_, node?_under_issued ht ha, by rw [hid]⟩
        · simp at hc

/-- The new node adds the pair of its entity and its parent to what the tree contains. -/
theorem contains_under (ht : t.Forest) (ha : t.node? parent = some above) (p c : Entity) :
    (t.under parent above e origin).Contains p c ↔ t.Contains p c ∨ (p = above.entity ∧ c = e) := by
  constructor
  · rintro ⟨id, n, q, m, hn, hq, hm, rfl, rfl⟩
    rcases node?_of_node?_under ha hn with ⟨rfl, rfl⟩ | ⟨n', hn', hentity, -, hparent, -⟩
    · obtain rfl := Option.some.inj hq
      rw [node?_under, if_pos rfl] at hm
      exact .inr ⟨by rw [← Option.some.inj hm], rfl⟩
    · obtain ⟨-, m', hm', -⟩ := ht.parent hn' (hparent ▸ hq)
      obtain ⟨m'', hm'', hentity', -⟩ := node?_under_of_node? e origin ht ha hm'
      obtain rfl := Option.some.inj (hm.symm.trans hm'')
      exact .inl ⟨id, n', q, m', hn', hparent ▸ hq, hm', hentity'.symm, hentity.symm⟩
  · rintro (⟨id, n, q, m, hn, hq, hm, rfl, rfl⟩ | ⟨rfl, rfl⟩)
    · obtain ⟨n', hn', hentity, -, hparent, -⟩ := node?_under_of_node? e origin ht ha hn
      obtain ⟨m', hm', hentity', -⟩ := node?_under_of_node? e origin ht ha hm
      exact ⟨id, n', q, m', hn', hparent.trans hq, hm', hentity', hentity⟩
    · obtain ⟨m, hm, hentity, -⟩ := node?_under_of_node? c origin ht ha ha
      exact ⟨_, _, parent, m, node?_under_issued ht ha, rfl, hm, hentity, rfl⟩

theorem attach_forest {placement : Placement} (ht : t.Forest)
    (h : t.attach parent e origin = .ok (t', placement)) : t'.Forest := by
  obtain ⟨above, ha, ⟨_, _, -, -, -, rfl, -⟩ | ⟨-, rfl, -⟩⟩ := attach_eq_ok h
  · exact ht
  · exact ht.under ha

theorem contains_attach {placement : Placement} (ht : t.Forest)
    (h : t.attach parent e origin = .ok (t', placement)) (ha : t.node? parent = some above)
    (p c : Entity) :
    t'.Contains p c ↔ t.Contains p c ∨ (p = above.entity ∧ c = e) := by
  obtain ⟨above', ha', ⟨id, n, hid, hn, rfl, rfl, -⟩ | ⟨-, rfl, -⟩⟩ := attach_eq_ok h
  · obtain rfl := Option.some.inj (ha.symm.trans ha')
    obtain ⟨n', hn', hparent⟩ := ht.child ha hid
    obtain rfl := Option.some.inj (hn.symm.trans hn')
    refine ⟨.inl, ?_⟩
    rintro (h | ⟨rfl, rfl⟩)
    · exact h
    · exact ⟨id, n, parent, above, hn, hparent, ha, rfl, rfl⟩
  · obtain rfl := Option.some.inj (ha.symm.trans ha')
    exact contains_under ht ha p c

/-- A root comes alone. -/
theorem push_root_forest (ht : t.Forest) (e : Entity) (origin : Origin) :
    (t.push { entity := e, origin, parent := none, children := [] }).Forest ∧ ∀ p c,
      (t.push { entity := e, origin, parent := none, children := [] }).Contains p c ↔
      t.Contains p c := by
  have hne (id : NodeId) (n : Node) (hn : t.node? id = some n) : id ≠ t.issued :=
    Nat.ne_of_lt (ht.issued hn)
  have hold (id : NodeId) (n : Node) (hn : t.node? id = some n) :
      (t.push { entity := e, origin, parent := none, children := [] }).node? id = some n := by
    rw [node?_push, if_neg (hne id n hn), hn]
  have hcases (id : NodeId) (n : Node)
      (hn : (t.push { entity := e, origin, parent := none, children := [] }).node? id = some n) :
      (id = t.issued ∧ n.parent = none ∧ n.children = []) ∨ t.node? id = some n := by
    rw [node?_push] at hn
    split_ifs at hn with h
    · exact .inl ⟨h, by rw [← Option.some.inj hn], by rw [← Option.some.inj hn]⟩
    · exact .inr hn
  refine ⟨⟨fun {id n} hn => ?_, fun {id n p} hn hp => ?_, fun {id m c} hm hc => ?_⟩,
    fun p c => ⟨?_, ?_⟩⟩
  · rcases hcases id n hn with ⟨rfl, -⟩ | hn
    · exact Nat.lt_succ_self _
    · exact Nat.lt_succ_of_lt (ht.issued hn)
  · rcases hcases id n hn with ⟨-, hroot, -⟩ | hn
    · simp [hroot] at hp
    · obtain ⟨hlt, m, hm, hmem⟩ := ht.parent hn hp
      exact ⟨hlt, m, hold p m hm, hmem⟩
  · rcases hcases id m hm with ⟨-, -, hleaf⟩ | hm
    · simp [hleaf] at hc
    · obtain ⟨n, hn, hparent⟩ := ht.child hm hc
      exact ⟨n, hold c n hn, hparent⟩
  · rintro ⟨id, n, q, m, hn, hq, hm, rfl, rfl⟩
    rcases hcases id n hn with ⟨-, hroot, -⟩ | hn
    · simp [hroot] at hq
    · obtain ⟨-, m', hm', -⟩ := ht.parent hn hq
      obtain rfl := Option.some.inj (hm.symm.trans (hold q m' hm'))
      exact ⟨id, n, q, m, hn, hq, hm', rfl, rfl⟩
  · rintro ⟨id, n, q, m, hn, hq, hm, rfl, rfl⟩
    exact ⟨id, n, q, m, hold id n hn, hq, hold q m hm, rfl, rfl⟩

end growth

end Containment
end DescriptorExchange
