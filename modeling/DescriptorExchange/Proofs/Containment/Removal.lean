import DescriptorExchange.Proofs.Containment.Forest

/-!
Removing a node with everything below it. What goes is exactly the subtree, although the tree is
walked down to a depth that only the number of nodes bounds; of what stays only the parent of the
node changes, and it only loses the child.
-/
namespace DescriptorExchange.Containment

variable {t : Containment} {i j k id : NodeId} {n m : Node}

/-- A node lies below another one, or is it. -/
inductive Under (t : Containment) (i : NodeId) : NodeId → Prop
  | refl : Under t i i
  | child {j c : NodeId} {m : Node} (h : Under t i j) (hm : t.node? j = some m)
    (hc : c ∈ m.children) :
    Under t i c

theorem Under.trans (hij : t.Under i j) (hjk : t.Under j k) : t.Under i k := by
  induction hjk with
  | refl => exact hij
  | child _ hm hc ih => exact ih.child hm hc

/-- The way down begins at the top. -/
theorem Under.cases_top (h : t.Under i j) :
    j = i ∨ ∃ m c, t.node? i = some m ∧ c ∈ m.children ∧ t.Under c j := by
  induction h with
  | refl => exact .inl rfl
  | child _ hm hc ih =>
    right
    rcases ih with rfl | ⟨m, c, hm', hc', hcj⟩
    · exact ⟨_, _, hm, hc, .refl⟩
    · exact ⟨m, c, hm', hc', hcj.child hm hc⟩

/-- What lies below a node is below its parent too. -/
theorem Under.of_parent (ht : t.Forest) {p : NodeId} (hn : t.node? j = some n)
    (hp : n.parent = some p)
    (h : t.Under i p) : t.Under i j := by
  obtain ⟨-, m, hm, hmem⟩ := ht.parent hn hp
  exact h.child hm hmem

/-- Below a node other than itself lies only what has a parent below it. -/
theorem Under.parent (ht : t.Forest) (h : t.Under i j) (hj : j ≠ i) :
    ∃ n p, t.node? j = some n ∧ n.parent = some p ∧ t.Under i p := by
  cases h with
  | refl => exact absurd rfl hj
  | child h hm hc =>
    obtain ⟨n, hn, hparent⟩ := ht.child hm hc
    exact ⟨n, _, hn, hparent, h⟩

theorem Under.node? (ht : t.Forest) (h : t.Under i j) (hi : t.node? i = some n) :
    ∃ m, t.node? j = some m := by
  by_cases hj : j = i
  · exact ⟨n, hj ▸ hi⟩
  · obtain ⟨m, -, hm, -⟩ := h.parent ht hj
    exact ⟨m, hm⟩

/-- The nodes that are no older than a node. A path downwards meets fewer and fewer of them. -/
def youngerThan (t : Containment) (i : NodeId) : Nat :=
  t.nodes.toList.countP fun entry => i ≤ entry.1

theorem youngerThan_le_size (t : Containment) (i : NodeId) : t.youngerThan i ≤ t.nodes.size := by
  rw [← Std.ExtTreeMap.length_toList]
  exact List.countP_le_length

/-- A condition that is stricter, and fails one more element, holds of fewer. -/
theorem countP_lt_countP {α : Type} {p q : α → Bool} {l : List α} {a : α} (ha : a ∈ l)
    (hpq : ∀ x, p x → q x) (hp : p a = false) (hq : q a = true) : l.countP p < l.countP q := by
  obtain ⟨front, back, rfl⟩ := List.append_of_mem ha
  have hfront : front.countP p ≤ front.countP q := List.countP_mono_left fun x _ => hpq x
  have hback : back.countP p ≤ back.countP q := List.countP_mono_left fun x _ => hpq x
  simp only [List.countP_append, List.countP_cons, hp, hq, if_true, Bool.false_eq_true, if_false]
  omega

theorem youngerThan_lt (hi : t.node? i = some n) (hij : i < j) :
    t.youngerThan j < t.youngerThan i := by
  refine countP_lt_countP (mem_toList.mpr hi) (fun entry hentry => ?_) (by simpa using hij) (by simp)
  simp only [decide_eq_true_eq] at hentry ⊢
  exact Nat.le_trans (Nat.le_of_lt hij) hentry

theorem node?_and_under_of_mem_below {depth : Nat} (h : j ∈ t.below depth i) :
    (∃ n, t.node? j = some n) ∧ t.Under i j := by
  induction depth generalizing i with
  | zero => simp [below] at h
  | succ depth ih =>
    unfold below at h
    split at h
    next => simp at h
    next m hm =>
      rcases List.mem_cons.mp h with rfl | h
      · exact ⟨⟨m, hm⟩, .refl⟩
      · obtain ⟨c, hc, hcj⟩ := List.mem_flatMap.mp h
        obtain ⟨hn, hunder⟩ := ih hcj
        exact ⟨hn, (Under.refl.child hm hc).trans hunder⟩

theorem mem_below_of_under (ht : t.Forest) {depth : Nat} (hi : t.node? i = some n)
    (hdepth : t.youngerThan i ≤ depth) (h : t.Under i j) : j ∈ t.below depth i := by
  induction depth generalizing i n with
  | zero =>
    have := youngerThan_lt hi (Nat.lt_succ_self i)
    omega
  | succ depth ih =>
    simp only [below, hi]
    rcases h.cases_top with rfl | ⟨m, c, hm, hc, hcj⟩
    · exact List.mem_cons_self
    · obtain rfl := Option.some.inj (hi.symm.trans hm)
      obtain ⟨n', hn', hparent⟩ := ht.child hi hc
      have hlt := youngerThan_lt hi (ht.parent hn' hparent).1
      exact List.mem_cons_of_mem _ (List.mem_flatMap.mpr ⟨c, hc, ih hn' (by omega) hcj⟩)

theorem mem_subtree (ht : t.Forest) (hi : t.node? i = some n) : j ∈ t.subtree i ↔ t.Under i j :=
  ⟨fun h => (node?_and_under_of_mem_below h).2, mem_below_of_under ht hi (t.youngerThan_le_size i)⟩

/-- Only its parent lists a node as a child. -/
theorem Forest.without_eq (ht : t.Forest) (hi : t.node? i = some n) (hm : t.node? j = some m)
    (hj : n.parent ≠ some j) : m.without i = m := by
  have hfilter : m.children.filter (· ≠ i) = m.children := by
    apply List.filter_eq_self.mpr
    intro c hc
    obtain ⟨n', hn', hparent⟩ := ht.child hm hc
    simp only [ne_eq, decide_not, Bool.not_eq_true', decide_eq_false_iff_not]
    rintro rfl
    obtain rfl := Option.some.inj (hi.symm.trans hn')
    exact hj hparent
  simp only [Node.without, hfilter]

theorem node?_unlink (ht : t.Forest) (hi : t.node? i = some n) (j : NodeId) :
    (t.unlink i).node? j = (t.node? j).map (·.without i) := by
  simp only [unlink, parent?, hi, Option.bind_some]
  cases hp : n.parent with
  | none =>
    cases hm : t.node? j with
    | none => rfl
    | some m => exact congrArg some (ht.without_eq hi hm (by simp [hp])).symm
  | some p =>
    obtain ⟨-, above, habove, -⟩ := ht.parent hi hp
    simp only [habove]
    rw [node?_insert]
    split_ifs with hjp
    · rw [hjp, habove]
      rfl
    · cases hm : t.node? j with
      | none => rfl
      | some m =>
        exact congrArg some (ht.without_eq hi hm (by simpa [hp] using fun h => hjp h.symm)).symm

/-- What goes when a node is removed is the node and everything below it. -/
theorem node?_detach_of_under (ht : t.Forest) (hi : t.node? i = some n) (h : t.Under i j) :
    (t.detach i).1.node? j = none := by
  rw [detach, node?_foldl_erase, if_pos ((mem_subtree ht hi).mpr h)]

theorem node?_detach (ht : t.Forest) (hi : t.node? i = some n) (h : ¬ t.Under i j) :
    (t.detach i).1.node? j = (t.node? j).map (·.without i) := by
  rw [← node?_unlink ht hi, detach, node?_foldl_erase,
    if_neg fun hmem => h ((mem_subtree ht hi).mp hmem)]

/-- A node that is there after a removal. -/
theorem node?_detach_eq_some (ht : t.Forest) (hi : t.node? i = some n) :
    (t.detach i).1.node? j = some m ↔ ¬ t.Under i j ∧ ∃ m', t.node? j = some m' ∧
    m'.without i = m := by
  by_cases h : t.Under i j
  · simp [node?_detach_of_under ht hi h, h]
  · simp [node?_detach ht hi h, h]

theorem mem_detach (ht : t.Forest) (hi : t.node? i = some n) {e : Entity} :
    e ∈ (t.detach i).2 ↔ ∃ j m, t.Under i j ∧ t.node? j = some m ∧ m.entity = e := by
  change e ∈ (t.subtree i).filterMap t.entity? ↔ _
  simp only [List.mem_filterMap, mem_subtree ht hi, entity?_eq_some]
  grind

@[simp] theorem detach_issued (t : Containment) (i : NodeId) :
    (t.detach i).1.issued = t.issued := by
  rw [detach, foldl_erase_issued]
  unfold unlink
  split
  · rfl
  · split <;> rfl

theorem detach_forest (ht : t.Forest) (hi : t.node? i = some n) : (t.detach i).1.Forest := by
  refine ⟨fun {id m} hm => ?_, fun {id m p} hm hp => ?_, fun {id m c} hm hc => ?_⟩
  all_goals obtain ⟨hout, m', hm', rfl⟩ := (node?_detach_eq_some ht hi).mp hm
  · simpa using ht.issued hm'
  · obtain ⟨hlt, q, hq, hmem⟩ := ht.parent hm' hp
    refine ⟨hlt, q.without i, (node?_detach_eq_some ht hi).mpr ⟨?_, q, hq, rfl⟩, ?_⟩
    · exact fun hunder => hout (hunder.of_parent ht hm' hp)
    · have hne : id ≠ i := fun h => hout (h ▸ .refl)
      simpa [Node.without] using ⟨hmem, hne⟩
  · obtain ⟨hc, hne⟩ : c ∈ m'.children ∧ c ≠ i := by simpa [Node.without] using hc
    obtain ⟨q, hq, hparent⟩ := ht.child hm' hc
    refine ⟨q.without i, (node?_detach_eq_some ht hi).mpr ⟨fun hunder => ?_, q, hq, rfl⟩, hparent⟩
    obtain ⟨q', p, hq', hp, hup⟩ := hunder.parent ht hne
    obtain rfl := Option.some.inj (hq.symm.trans hq')
    exact hout (Option.some.inj (hparent.symm.trans hp) ▸ hup)

/-- Removing nodes whose entities no other node holds takes those entities out of what is
contained. -/
theorem contains_detach (ht : t.Forest) (hi : t.node? i = some n)
    (hunique : ∀ {j k m m'}, t.Under i j → t.node? j = some m → t.node? k = some m' →
      m'.entity = m.entity → k = j) (p c : Entity) :
    (t.detach i).1.Contains p c ↔ t.Contains p c ∧ p ∉ (t.detach i).2 ∧ c ∉ (t.detach i).2 := by
  constructor
  · rintro ⟨id, m, q, above, hm, hq, habove, rfl, rfl⟩
    rw [node?_detach_eq_some ht hi] at hm habove
    obtain ⟨hout, m, hm, rfl⟩ := hm
    obtain ⟨houtq, above, habove, rfl⟩ := habove
    refine ⟨⟨id, m, q, above, hm, hq, habove, rfl, rfl⟩, fun hgone => ?_, fun hgone => ?_⟩
    · obtain ⟨j, m', hj, hm', heq⟩ := (mem_detach ht hi).mp hgone
      exact houtq (hunique hj hm' habove heq.symm ▸ hj)
    · obtain ⟨j, m', hj, hm', heq⟩ := (mem_detach ht hi).mp hgone
      exact hout (hunique hj hm' hm heq.symm ▸ hj)
  · rintro ⟨⟨id, m, q, above, hm, hq, habove, rfl, rfl⟩, hp, hc⟩
    refine ⟨id, m.without i, q, above.without i,
      (node?_detach_eq_some ht hi).mpr ⟨fun h => ?_, m, hm, rfl⟩, hq,
      (node?_detach_eq_some ht hi).mpr ⟨fun h => ?_, above, habove, rfl⟩, rfl, rfl⟩
    · exact hc ((mem_detach ht hi).mpr ⟨id, m, h, hm, rfl⟩)
    · exact hp ((mem_detach ht hi).mpr ⟨q, above, h, habove, rfl⟩)

end DescriptorExchange.Containment
