import DescriptorExchange.Proofs.Containment.Shape
import Mathlib.Data.List.Induction

/-!
Entities that two nodes hold. Attaching looks for the entity in the whole tree, and adding a root only
among the roots. So whatever is done to a tree, an entity is held twice just if it was added as a root
while it lived below another node, and both nodes are still there.
-/
namespace DescriptorExchange.Containment

variable {t u : Containment} {i j : NodeId} {e f : Entity} {p q : Option NodeId}

/-- A live node holds an entity, below a parent or as a root. -/
def Holds (t : Containment) (i : NodeId) (e : Entity) (parent : Option NodeId) : Prop :=
  ∃ n, t.node? i = some n ∧ n.entity = e ∧ n.parent = parent

/-- Two live nodes hold an entity. -/
def Twice (t : Containment) (e : Entity) : Prop :=
  ∃ i j p q, i ≠ j ∧ t.Holds i e p ∧ t.Holds j e q

/-- No entity is held by two live nodes. -/
def Untwinned (t : Containment) : Prop := ∀ e, ¬ t.Twice e

/-- A change adds a node for an entity. -/
inductive Adds (t : Containment) (e : Entity) : Change → Option NodeId → Prop
  | root (origin : Origin) (hfree : ∀ i, ¬ t.Holds i e none) : Adds t e (.addRoot e origin) none
  | child (parent : NodeId) (origin : Origin) (hfree : ∀ i p, ¬ t.Holds i e p) :
      Adds t e (.attach parent e origin) (some parent)

/-- Of two nodes that hold the same entity the elder lives below another node and the younger is a
root. -/
def Elder (t : Containment) : Prop :=
  ∀ i j e p q, i < j → t.Holds i e p → t.Holds j e q → p ≠ none ∧ q = none

/-- An entity is added as a root while it lives below another node, and no root holds it. -/
structure Doubles (u : Containment) (i : NodeId) (e : Entity) : Prop where
  below : ∃ parent, u.Holds i e (some parent)
  rootless : ∀ k, ¬ u.Holds k e none

theorem holds_iff :
    t.Holds i e p ↔ (t.node? i).map (fun n => (n.entity, n.parent)) = some (e, p) := by
  simp [Holds]

instance : Decidable (t.Holds i e p) := decidable_of_iff _ holds_iff.symm

theorem untwinned_iff_nodup :
    t.Untwinned ↔ (t.nodes.toList.map fun entry => entry.2.entity).Nodup := by
  have hdistinct : t.nodes.toList.Nodup :=
    t.toList_pairwise.imp fun hlt heq => Nat.ne_of_lt hlt (congrArg Prod.fst heq)
  constructor
  · intro h
    refine hdistinct.map_on fun ⟨i, n⟩ hi ⟨j, m⟩ hj he => ?_
    by_contra hne
    refine h n.entity ⟨i, j, _, _, fun hij => hne ?_, ⟨n, mem_toList.mp hi, rfl, rfl⟩,
      ⟨m, mem_toList.mp hj, he.symm, rfl⟩⟩
    subst hij
    rw [Option.some.inj ((mem_toList.mp hi).symm.trans (mem_toList.mp hj))]
  · rintro h e ⟨i, j, p, q, hne, ⟨n, hn, hentity, -⟩, ⟨m, hm, he, -⟩⟩
    have heq := List.inj_on_of_nodup_map h (mem_toList.mpr hn) (mem_toList.mpr hm)
      (hentity.trans he.symm)
    exact hne (Prod.mk.inj heq).1

instance : Decidable t.Untwinned := decidable_of_iff _ untwinned_iff_nodup.symm

theorem Untwinned.eq {n m : Node} (h : t.Untwinned) (hn : t.node? i = some n)
    (hm : t.node? j = some m) (he : m.entity = n.entity) : j = i := by
  by_contra hne
  exact h n.entity ⟨j, i, _, _, hne, ⟨m, hm, he, rfl⟩, ⟨n, hn, rfl, rfl⟩⟩

theorem Holds.inj (h : t.Holds i e p) (h' : t.Holds i f q) : e = f ∧ p = q := by
  obtain ⟨n, hn, rfl, rfl⟩ := h
  obtain ⟨m, hm, rfl, rfl⟩ := h'
  obtain rfl := Option.some.inj (hn.symm.trans hm)
  exact ⟨rfl, rfl⟩

theorem Holds.issued (ht : t.Forest) (h : t.Holds i e p) : i < t.issued := by
  obtain ⟨n, hn, -, -⟩ := h
  exact ht.issued hn

theorem holds_push_root {origin : Origin} (ht : t.Forest) :
    (t.push { entity := e, origin, parent := none, children := [] }).Holds i f p ↔
      t.Holds i f p ∨ (i = t.issued ∧ f = e ∧ p = none) := by
  constructor
  · rintro ⟨n, hn, rfl, rfl⟩
    rw [node?_push] at hn
    split_ifs at hn with hi
    · obtain rfl := Option.some.inj hn
      exact .inr ⟨hi, rfl, rfl⟩
    · exact .inl ⟨n, hn, rfl, rfl⟩
  · rintro (⟨n, hn, rfl, rfl⟩ | ⟨rfl, rfl, rfl⟩)
    · exact ⟨n, by rw [node?_push, if_neg (Nat.ne_of_lt (ht.issued hn)), hn], rfl, rfl⟩
    · exact ⟨_, by rw [node?_push, if_pos rfl], rfl, rfl⟩

theorem holds_under {parent : NodeId} {above : Node} {origin : Origin} (ht : t.Forest)
    (ha : t.node? parent = some above) :
    (t.under parent above e origin).Holds i f p ↔
      t.Holds i f p ∨ (i = t.issued ∧ f = e ∧ p = some parent) := by
  constructor
  · rintro ⟨n, hn, rfl, rfl⟩
    rcases node?_of_node?_under ha hn with ⟨rfl, rfl⟩ | ⟨m, hm, hentity, -, hparent, -⟩
    · exact .inr ⟨rfl, rfl, rfl⟩
    · exact .inl ⟨m, hm, hentity.symm, hparent.symm⟩
  · rintro (⟨n, hn, rfl, rfl⟩ | ⟨rfl, rfl, rfl⟩)
    · obtain ⟨n', hn', hentity, -, hparent, -⟩ := node?_under_of_node? e origin ht ha hn
      exact ⟨n', hn', hentity, hparent⟩
    · exact ⟨_, node?_under_issued ht ha, rfl, rfl⟩

theorem holds_detach {n : Node} (ht : t.Forest) (hj : t.node? j = some n) :
    (t.detach j).1.Holds i f p ↔ ¬ t.Under j i ∧ t.Holds i f p := by
  unfold Holds
  simp only [node?_detach_eq_some ht hj]
  constructor
  · rintro ⟨m, ⟨hout, m', hm', rfl⟩, hentity, hparent⟩
    exact ⟨hout, m', hm', hentity, hparent⟩
  · rintro ⟨hout, m, hm, hentity, hparent⟩
    exact ⟨m.without j, ⟨hout, m, hm, rfl⟩, hentity, hparent⟩

/-- A root is added just if no root holds the entity. -/
theorem addRoot_cases (t : Containment) (e : Entity) (origin : Origin) :
    ((∃ i, t.Holds i e none) ∧ (t.addRoot e origin).1 = t) ∨
      ((∀ i, ¬ t.Holds i e none) ∧
        (t.addRoot e origin).1 = t.push { entity := e, origin, parent := none, children := [] }) := by
  unfold addRoot
  cases hfind : t.find? fun n => n.parent = none && n.entity = e with
  | some i =>
    obtain ⟨⟨n, hn, hroot⟩, -⟩ := find?_eq_some.mp hfind
    simp only [Bool.and_eq_true, decide_eq_true_eq] at hroot
    exact .inl ⟨⟨i, n, hn, hroot.2, hroot.1⟩, rfl⟩
  | none =>
    refine .inr ⟨?_, rfl⟩
    rintro i ⟨n, hn, hentity, hparent⟩
    exact find?_eq_none.mp hfind i n hn (by simp [hentity, hparent])

/-- An entity is attached where it is attached already, or if no node holds it. -/
theorem attached_cases {parent : NodeId} {origin : Origin} {placement : Placement}
    (h : t.attach parent e origin = .ok (u, placement)) (ht : t.Forest) :
    ∃ above, t.node? parent = some above ∧
      ((∃ i, t.Holds i e (some parent)) ∧ u = t ∨
        (∀ i p, ¬ t.Holds i e p) ∧ u = t.under parent above e origin) := by
  obtain ⟨above, ha, ⟨c, n, hc, hn, hentity, rfl, -⟩ | ⟨hnone, rfl, -⟩⟩ := attach_eq_ok h
  · obtain ⟨n', hn', hparent⟩ := ht.child ha hc
    obtain rfl := Option.some.inj (hn.symm.trans hn')
    exact ⟨above, ha, .inl ⟨⟨c, n, hn, hentity, hparent⟩, rfl⟩⟩
  · refine ⟨above, ha, .inr ⟨?_, rfl⟩⟩
    rintro i p ⟨n, hn, hentity, -⟩
    exact findExact?_eq_none hnone hn hentity

/-- What a node holds after a change it held before, or the change has added it. -/
theorem holds_of_after (ht : t.Forest) {change : Change} (h : (t.after change).Holds i e p) :
    t.Holds i e p ∨ (i = t.issued ∧ t.Adds e change p) := by
  cases change with
  | addRoot f origin =>
    rw [after] at h
    rcases t.addRoot_cases f origin with ⟨-, heq⟩ | ⟨hfree, heq⟩
    · rw [heq] at h
      exact .inl h
    · rw [heq, holds_push_root ht] at h
      refine h.imp_right ?_
      rintro ⟨hi, rfl, rfl⟩
      exact ⟨hi, .root origin hfree⟩
  | attach parent f origin =>
    rw [after] at h
    split at h
    next grown placement hattach =>
      obtain ⟨above, ha, ⟨-, rfl⟩ | ⟨hfree, rfl⟩⟩ := attached_cases hattach ht
      · exact .inl h
      · rw [holds_under ht ha] at h
        refine h.imp_right ?_
        rintro ⟨hi, rfl, rfl⟩
        exact ⟨hi, .child parent origin hfree⟩
    next => exact .inl h
  | detach j =>
    rw [after] at h
    cases hj : t.node? j with
    | none =>
      rw [detach_of_none hj] at h
      exact .inl h
    | some n => exact .inl ((holds_detach ht hj).mp h).2

/-- A root for an entity that no root holds is a new node. -/
theorem holds_after_addRoot (ht : t.Forest) (origin : Origin) (hfree : ∀ k, ¬ t.Holds k e none) :
    (t.after (.addRoot e origin)).Holds i f p ↔
      t.Holds i f p ∨ (i = t.issued ∧ f = e ∧ p = none) := by
  obtain ⟨⟨k, hk⟩, -⟩ | ⟨-, heq⟩ := t.addRoot_cases e origin
  · exact absurd hk (hfree k)
  · rw [after, heq, holds_push_root ht]

/-- Ids are never taken back. -/
theorem issued_le_after (t : Containment) (change : Change) : t.issued ≤ (t.after change).issued := by
  rcases t.after_cases change with heq | ⟨e, origin, heq⟩ | ⟨parent, above, e, origin, -, heq⟩ |
    ⟨id, n, -, heq⟩
  all_goals rw [heq]
  · exact Nat.le_succ _
  · exact Nat.le_succ _
  · rw [detach_issued]

/-- A live node that is no younger than a tree was live in it, and held what it holds now. -/
theorem holds_of_afterAll (changes : List Change) (ht : t.Unrepeated) (hi : i < t.issued)
    (h : (t.afterAll changes).Holds i e p) : t.Holds i e p := by
  induction changes generalizing t with
  | nil => exact h
  | cons change rest ih =>
    have hlater := ih (ht.after change) (Nat.lt_of_lt_of_le hi (t.issued_le_after change)) h
    rcases holds_of_after ht.forest hlater with hold | ⟨rfl, -⟩
    · exact hold
    · exact absurd hi (Nat.lt_irrefl _)

/-- A root that is live after some changes was added by one of them. -/
theorem root_added {changes : List Change} (h : (empty.afterAll changes).Holds i e none) :
    ∃ pre origin post, changes = pre ++ .addRoot e origin :: post ∧
      i = (empty.afterAll pre).issued ∧ ∀ k, ¬ (empty.afterAll pre).Holds k e none := by
  induction changes using List.reverseRecOn with
  | nil =>
    obtain ⟨n, hn, -⟩ := h
    simp [afterAll, empty, node?] at hn
  | append_singleton changes change ih =>
    have ht : (empty.afterAll changes).Unrepeated := Unrepeated.empty.afterAll changes
    have hlast : empty.afterAll (changes ++ [change]) = (empty.afterAll changes).after change := by
      simp [afterAll]
    rw [hlast] at h
    rcases holds_of_after ht.forest h with hold | ⟨hi, hadds⟩
    · obtain ⟨pre, origin, post, rfl, hadded⟩ := ih hold
      exact ⟨pre, origin, post ++ [change], by simp, hadded⟩
    · cases hadds with
      | root origin hfree => exact ⟨changes, origin, [], rfl, hi, hfree⟩

theorem Elder.after (ht : t.Forest) (h : t.Elder) (change : Change) : (t.after change).Elder := by
  intro i j e p q hij hi hj
  rcases holds_of_after ht hi with hiold | ⟨rfl, -⟩
  · rcases holds_of_after ht hj with hjold | ⟨rfl, hadds⟩
    · exact h i j e p q hij hiold hjold
    · cases hadds with
      | root origin hfree => exact ⟨fun hp => hfree i (hp ▸ hiold), rfl⟩
      | child parent origin hfree => exact absurd hiold (hfree i p)
  · -- The elder is not new, for nothing is younger than a new node.
    rcases holds_of_after ht hj with hjold | ⟨rfl, -⟩
    · exact absurd (hjold.issued ht) (Nat.lt_asymm hij)
    · exact absurd hij (Nat.lt_irrefl _)

theorem Elder.afterAll (changes : List Change) (ht : t.Unrepeated) (h : t.Elder) :
    (t.afterAll changes).Elder := by
  induction changes generalizing t with
  | nil => exact h
  | cons change rest ih => exact ih (ht.after change) (h.after ht.forest change)

theorem Elder.empty : Elder empty := by
  rintro i j e p q - ⟨n, hn, -⟩
  simp [node?, Containment.empty] at hn

/-- Of the two nodes one lives below another node and the other is a root. -/
theorem Elder.twice_iff (h : t.Elder) :
    t.Twice e ↔ ∃ i j parent, i < j ∧ t.Holds i e (some parent) ∧ t.Holds j e none := by
  constructor
  · rintro ⟨i, j, p, q, hne, hi, hj⟩
    rcases Nat.lt_or_gt_of_ne hne with hlt | hlt
    · obtain ⟨hp, rfl⟩ := h i j e p q hlt hi hj
      obtain ⟨parent, rfl⟩ := Option.ne_none_iff_exists'.mp hp
      exact ⟨i, j, parent, hlt, hi, hj⟩
    · obtain ⟨hq, rfl⟩ := h j i e q p hlt hj hi
      obtain ⟨parent, rfl⟩ := Option.ne_none_iff_exists'.mp hq
      exact ⟨j, i, parent, hlt, hj, hi⟩
  · rintro ⟨i, j, parent, hlt, hi, hj⟩
    exact ⟨i, j, some parent, none, Nat.ne_of_lt hlt, hi, hj⟩

/-- After any changes an entity is held twice just if a root was added for it while it lived below
another node, and neither of the two nodes has been detached since. -/
theorem twice_afterAll_iff (changes : List Change) :
    (empty.afterAll changes).Twice e ↔ ∃ pre origin post i,
      changes = pre ++ .addRoot e origin :: post ∧ (empty.afterAll pre).Doubles i e ∧
      ((empty.afterAll changes).node? i).isSome ∧
      ((empty.afterAll changes).node? (empty.afterAll pre).issued).isSome := by
  have helder : (empty.afterAll changes).Elder := Elder.empty.afterAll changes Unrepeated.empty
  have hsplit (pre : List Change) (origin : Origin) (post : List Change) :
      empty.afterAll (pre ++ .addRoot e origin :: post) =
        ((empty.afterAll pre).after (.addRoot e origin)).afterAll post := by
    simp [afterAll]
  rw [helder.twice_iff]
  constructor
  · rintro ⟨i, j, parent, hlt, hi, hj⟩
    obtain ⟨pre, origin, post, rfl, rfl, hrootless⟩ := root_added hj
    have hpre : (empty.afterAll pre).Unrepeated := Unrepeated.empty.afterAll pre
    have hbelow : (empty.afterAll pre).Holds i e (some parent) :=
      holds_of_afterAll (.addRoot e origin :: post) hpre hlt (hsplit pre origin post ▸ hi)
    obtain ⟨n, hn, -⟩ := hi
    obtain ⟨m, hm, -⟩ := hj
    exact ⟨pre, origin, post, i, rfl, ⟨⟨parent, hbelow⟩, hrootless⟩, by simp [hn], by simp [hm]⟩
  · rintro ⟨pre, origin, post, i, rfl, ⟨⟨parent, hbelow⟩, hrootless⟩, hi, hj⟩
    have hpre : (empty.afterAll pre).Unrepeated := Unrepeated.empty.afterAll pre
    have hlt := hbelow.issued hpre.forest
    have hadded {k : NodeId} {f : Entity} {p : Option NodeId} :=
      holds_after_addRoot (i := k) (f := f) (p := p) hpre.forest origin hrootless
    -- Both nodes are live, so they hold what they held right after the root was added.
    have hkept {k : NodeId} {p : Option NodeId}
        (hk : ((empty.afterAll pre).after (.addRoot e origin)).Holds k e p)
        (hlive : ((empty.afterAll (pre ++ .addRoot e origin :: post)).node? k).isSome) :
        (empty.afterAll (pre ++ .addRoot e origin :: post)).Holds k e p := by
      obtain ⟨n, hn⟩ := Option.isSome_iff_exists.mp hlive
      rw [hsplit] at hn ⊢
      have hold := holds_of_afterAll post (hpre.after _) (hk.issued (hpre.after _).forest)
        ⟨n, hn, rfl, rfl⟩
      obtain ⟨hentity, hparent⟩ := hold.inj hk
      exact ⟨n, hn, hentity, hparent⟩
    exact ⟨i, _, parent, hlt, hkept (hadded.mpr (.inl hbelow)) hi,
      hkept (hadded.mpr (.inr ⟨rfl, rfl, rfl⟩)) hj⟩

end DescriptorExchange.Containment
