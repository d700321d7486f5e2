import DescriptorExchange.Proofs.Containment.Removal
import Mathlib.Data.List.Induction
import Mathlib.Logic.Relation

/-!
The shape of the tree under any changes. Roots are added, entities attached under any id and any id
detached, in any order, refused or not, and from the empty tree on it stays a forest: parents and
child lists agree, every way up ends at a root, and an id that has been detached is never used again.
-/
namespace DescriptorExchange.Containment

variable {t u : Containment} {i j : NodeId} {n m : Node}

/-- What is done to a tree from outside. -/
inductive Change where
  | addRoot (e : Entity) (origin : Origin)
  | attach (parent : NodeId) (e : Entity) (origin : Origin)
  | detach (id : NodeId)

/-- The tree after a change. One that is refused leaves it as it was. -/
def after (t : Containment) : Change → Containment
  | .addRoot e origin => (t.addRoot e origin).1
  | .attach parent e origin => match t.attach parent e origin with
    | .ok (grown, _) => grown
    | .error _ => t
  | .detach id => (t.detach id).1

def afterAll (t : Containment) (changes : List Change) : Containment := changes.foldl after t

/-- All child lists, one after another. -/
def listed (t : Containment) : List NodeId := t.nodes.toList.flatMap fun entry => entry.2.children

structure WellFormed (t : Containment) : Prop where
  /-- The child lists name a node once among them all, and a root not at all. -/
  once : ∀ {i n}, t.node? i = some n → t.listed.count i = if n.parent = none then 0 else 1
  /-- The one that names it is that of its parent. -/
  parent : ∀ {i n p}, t.node? i = some n → n.parent = some p →
    ∃ m, t.node? p = some m ∧ i ∈ m.children
  live : ∀ i ∈ t.listed, (t.node? i).isSome
  /-- The way up from a node ends at a root. -/
  grounded : ∀ {i n}, t.node? i = some n → ∃ root above,
    Relation.ReflTransGen (fun j p => t.parent? j = some p) i root ∧
      t.node? root = some above ∧ above.parent = none
  path : ∀ {i n}, t.node? i = some n → ∀ names root, (t.path? names root i).isSome
  issued : ∀ {i n}, t.node? i = some n → i < t.issued
  /-- The size is the number of ids handed out so far that still name a node. -/
  size : t.size = ((List.range t.issued).filter fun i => (t.node? i).isSome).length

section changes

/-- Detaching what is not there does nothing. -/
theorem detach_of_none (hi : t.node? i = none) : t.detach i = (t, []) := by
  have hsubtree : t.subtree i = [] := by
    unfold subtree
    cases t.nodes.size with
    | zero => rfl
    | succ depth => simp only [below, hi]
  have hunlink : t.unlink i = t := by simp only [unlink, parent?, hi, Option.bind_none]
  simp only [detach, hsubtree, hunlink, List.foldl_nil, List.filterMap_nil]

/-- A change does nothing, or it adds a root, hangs a new node under another one, or takes a node out
with everything below it. -/
theorem after_cases (t : Containment) (change : Change) :
    t.after change = t ∨
    (∃ e origin, t.after change = t.push { entity := e, origin, parent := none, children := [] }) ∨
    (∃ parent above e origin, t.node? parent = some above ∧
      t.after change = t.under parent above e origin) ∨
    ∃ id n, t.node? id = some n ∧ t.after change = (t.detach id).1 := by
  cases change with
  | addRoot e origin =>
    simp only [after, addRoot]
    split
    · exact .inl rfl
    · exact .inr (.inl ⟨e, origin, rfl⟩)
  | attach parent e origin =>
    simp only [after]
    cases hattach : t.attach parent e origin with
    | error cause => exact .inl rfl
    | ok grown =>
      obtain ⟨above, habove, ⟨_, _, -, -, -, heq, -⟩ | ⟨-, heq, -⟩⟩ := attach_eq_ok hattach
      · exact .inl heq
      · exact .inr (.inr (.inl ⟨parent, above, e, origin, habove, heq⟩))
  | detach id =>
    cases hid : t.node? id with
    | none => exact .inl (by rw [after, detach_of_none hid])
    | some n => exact .inr (.inr (.inr ⟨id, n, hid, rfl⟩))

/-- A forest in which no child list names a node twice: each is in the order of the ids, in which they have
been handed out. -/
structure Unrepeated (t : Containment) : Prop where
  forest : t.Forest
  ascending : ∀ {i n}, t.node? i = some n → n.children.Pairwise (· < ·)

theorem Unrepeated.nodup (ht : t.Unrepeated) (hi : t.node? i = some n) : n.children.Nodup :=
  (ht.ascending hi).imp Nat.ne_of_lt

theorem Unrepeated.empty : Unrepeated empty := by
  have hnone (id : NodeId) : Containment.empty.node? id = none := rfl
  exact ⟨⟨fun h => by simp [hnone] at h, fun h => by simp [hnone] at h,
    fun h => by simp [hnone] at h⟩, fun h => by simp [hnone] at h⟩

theorem Unrepeated.after (ht : t.Unrepeated) (change : Change) : (t.after change).Unrepeated := by
  rcases t.after_cases change with heq | ⟨e, origin, heq⟩ | ⟨parent, above, e, origin, ha, heq⟩ |
    ⟨id, n, hid, heq⟩
  all_goals rw [heq]
  · exact ht
  · refine ⟨(push_root_forest ht.forest e origin).1, fun {i m} hm => ?_⟩
    rw [node?_push] at hm
    split_ifs at hm
    · obtain rfl := Option.some.inj hm
      exact .nil
    · exact ht.ascending hm
  · refine ⟨ht.forest.under ha, fun {i m} hm => ?_⟩
    rcases node?_of_node?_under ha hm with ⟨-, rfl⟩ | ⟨old, hold, -, -, -, hchildren⟩
    · exact .nil
    · -- The new id is higher than those of all children there are.
      have hnew (c : NodeId) (hmem : c ∈ old.children) : c < t.issued := by
        obtain ⟨m, hc, -⟩ := ht.forest.child hold hmem
        exact ht.forest.issued hc
      rw [hchildren]
      split_ifs
      · refine List.pairwise_append.mpr ⟨ht.ascending hold, List.pairwise_singleton .., ?_⟩
        exact fun c hc b hb => List.mem_singleton.mp hb ▸ hnew c hc
      · simpa using ht.ascending hold
  · refine ⟨detach_forest ht.forest hid, fun {i m} hm => ?_⟩
    obtain ⟨-, old, hold, rfl⟩ := (node?_detach_eq_some ht.forest hid).mp hm
    exact (ht.ascending hold).filter _

/-- Whatever is done to a tree, it stays such a forest. -/
theorem Unrepeated.afterAll (changes : List Change) (ht : t.Unrepeated) :
    (t.afterAll changes).Unrepeated := by
  induction changes generalizing t with
  | nil => exact ht
  | cons change rest ih => exact ih (ht.after change)

section counter

/-- The counter tells the number of nodes. -/
def Counted (t : Containment) : Prop := t.size = t.nodes.size

theorem Counted.empty : Counted empty := rfl

theorem Counted.push (ht : t.Counted) (hissued : t.node? t.issued = none) (n : Node) :
    (t.push n).Counted := by
  have hnew : ¬ t.issued ∈ t.nodes := by simp [mem_nodes_iff, hissued]
  simp only [Counted, size, Containment.push, Std.ExtTreeMap.size_insert,
    Std.ExtTreeMap.contains_iff_mem, if_neg hnew]
  exact congrArg Nat.succ ht

/-- Writing over a node that is there adds none. -/
theorem Counted.insert (ht : t.Counted) (hi : t.node? i = some n) (m : Node) :
    Counted { t with nodes := t.nodes.insert i m } := by
  have hmem : i ∈ t.nodes := mem_nodes_iff.mpr (by rw [hi]; rfl)
  simp only [Counted, size, Std.ExtTreeMap.size_insert, Std.ExtTreeMap.contains_iff_mem, if_pos hmem]
  exact ht

theorem Counted.unlink (ht : t.Counted) (i : NodeId) : (t.unlink i).Counted := by
  unfold Containment.unlink
  split
  next => exact ht
  next =>
    split
    next => exact ht
    next habove => exact ht.insert habove _

theorem Counted.erase (ht : t.Counted) (i : NodeId) : (t.erase i).Counted := by
  unfold Containment.erase
  split
  next => exact ht
  next n hi =>
    have hmem : i ∈ t.nodes := mem_nodes_iff.mpr (by rw [hi]; rfl)
    simp only [Counted, size, Std.ExtTreeMap.size_erase, Std.ExtTreeMap.contains_iff_mem, if_pos hmem]
    exact congrArg (· - 1) ht

theorem Counted.detach (ht : t.Counted) (i : NodeId) : (t.detach i).1.Counted := by
  rw [Containment.detach]
  generalize t.subtree i = gone
  induction gone using List.reverseRecOn with
  | nil => exact ht.unlink i
  | append_singleton gone j ih =>
    rw [List.foldl_append]
    exact ih.erase j

theorem Counted.after (ht : t.Counted) (hforest : t.Forest) (change : Change) :
    (t.after change).Counted := by
  have hissued : t.node? t.issued = none := by
    by_contra hlive
    obtain ⟨n, hn⟩ := Option.ne_none_iff_exists'.mp hlive
    exact Nat.lt_irrefl _ (hforest.issued hn)
  rcases t.after_cases change with heq | ⟨e, origin, heq⟩ | ⟨parent, above, e, origin, ha, heq⟩ |
    ⟨id, n, hid, heq⟩
  all_goals rw [heq]
  · exact ht
  · exact ht.push hissued _
  · have hne : parent ≠ t.issued := Nat.ne_of_lt (hforest.issued ha)
    exact (ht.push hissued _).insert ((node?_push ..).trans ((if_neg hne).trans ha)) _
  · exact ht.detach id

theorem Counted.afterAll (changes : List Change) (ht : t.Counted) (hshape : t.Unrepeated) :
    (t.afterAll changes).Counted := by
  induction changes generalizing t with
  | nil => exact ht
  | cons change rest ih => exact ih (ht.after hshape.forest change) (hshape.after change)

end counter

/-- An id that has been handed out and names no node. -/
structure Spent (t : Containment) (i : NodeId) : Prop where
  issued : i < t.issued
  gone : t.node? i = none

theorem Spent.after (ht : t.Forest) (hi : t.Spent i) (change : Change) : (t.after change).Spent i := by
  rcases t.after_cases change with heq | ⟨e, origin, heq⟩ | ⟨parent, above, e, origin, ha, heq⟩ |
    ⟨id, n, hid, heq⟩
  all_goals rw [heq]
  · exact hi
  · refine ⟨Nat.lt_succ_of_lt hi.issued, ?_⟩
    rw [node?_push, if_neg (Nat.ne_of_lt hi.issued), hi.gone]
  · refine ⟨Nat.lt_succ_of_lt hi.issued, ?_⟩
    have hparent : i ≠ parent := fun heq => by simp [← heq, hi.gone] at ha
    rw [node?_under, if_neg hparent, if_neg (Nat.ne_of_lt hi.issued), hi.gone]
  · refine ⟨by rw [detach_issued]; exact hi.issued, ?_⟩
    by_cases hunder : t.Under id i
    · exact node?_detach_of_under ht hid hunder
    · rw [node?_detach ht hid hunder, hi.gone]
      rfl

/-- Such an id names no node ever again. -/
theorem Spent.afterAll (changes : List Change) (ht : t.Unrepeated) (hi : t.Spent i) :
    (t.afterAll changes).Spent i := by
  induction changes generalizing t with
  | nil => exact hi
  | cons change rest ih => exact ih (ht.after change) (hi.after ht.forest change)

end changes

section shape

theorem mem_listed : i ∈ t.listed ↔ ∃ p m, t.node? p = some m ∧ i ∈ m.children := by
  simp only [listed, List.mem_flatMap, Prod.exists, mem_toList]

/-- A node is listed by its parent and by no other node. -/
theorem Forest.mem_listed (ht : t.Forest) (hi : t.node? i = some n) :
    i ∈ t.listed ↔ n.parent ≠ none := by
  rw [Containment.mem_listed]
  constructor
  · rintro ⟨p, m, hm, hmem⟩
    obtain ⟨n', hn', hparent⟩ := ht.child hm hmem
    obtain rfl := Option.some.inj (hi.symm.trans hn')
    simp [hparent]
  · intro hparent
    obtain ⟨p, hp⟩ := Option.ne_none_iff_exists'.mp hparent
    obtain ⟨-, m, hm, hmem⟩ := ht.parent hi hp
    exact ⟨p, m, hm, hmem⟩

theorem Unrepeated.nodup_listed (ht : t.Unrepeated) : t.listed.Nodup := by
  refine List.nodup_flatMap.mpr ⟨fun entry hentry => ht.nodup (mem_toList.mp hentry), ?_⟩
  refine t.toList_pairwise.imp_of_mem fun {a b} ha hb hlt => ?_
  intro c hca hcb
  obtain ⟨n, hn, hparent⟩ := ht.forest.child (mem_toList.mp ha) hca
  obtain ⟨n', hn', hparent'⟩ := ht.forest.child (mem_toList.mp hb) hcb
  obtain rfl := Option.some.inj (hn.symm.trans hn')
  have heq : a.1 = b.1 := Option.some.inj (hparent.symm.trans hparent')
  exact Nat.lt_irrefl _ (heq ▸ hlt)

/-- The way up from a node comes to older and older ones, so it ends. -/
theorem Forest.grounded (ht : t.Forest) (hi : t.node? i = some n) : ∃ root above,
    Relation.ReflTransGen (fun j p => t.parent? j = some p) i root ∧
      t.node? root = some above ∧ above.parent = none := by
  induction i using Nat.strongRecOn generalizing n with
  | ind i ih =>
    cases hp : n.parent with
    | none => exact ⟨i, n, .refl, hi, hp⟩
    | some p =>
      obtain ⟨hlt, m, hm, -⟩ := ht.parent hi hp
      obtain ⟨root, above, hway, habove⟩ := ih p hlt hm
      have hstep : t.parent? i = some p := by simp [parent?, hi, hp]
      exact ⟨root, above, hway.head hstep, habove⟩

/-- The nodes that are no younger than a node. A way upwards meets fewer and fewer of them. -/
def olderThan (t : Containment) (i : NodeId) : Nat :=
  t.nodes.toList.countP fun entry => entry.1 ≤ i

theorem olderThan_le_size (t : Containment) (i : NodeId) : t.olderThan i ≤ t.nodes.size := by
  rw [← Std.ExtTreeMap.length_toList]
  exact List.countP_le_length

theorem olderThan_lt (hi : t.node? i = some n) (hji : j < i) : t.olderThan j < t.olderThan i := by
  refine countP_lt_countP (mem_toList.mpr hi) (fun entry hentry => ?_) (by simpa using hji) (by simp)
  simp only [decide_eq_true_eq] at hentry ⊢
  exact Nat.le_trans hentry (Nat.le_of_lt hji)

theorem Forest.upward_isSome (ht : t.Forest) {steps : Nat} (hi : t.node? i = some n)
    (hsteps : t.olderThan i ≤ steps) : (t.upward steps i).isSome := by
  induction steps generalizing i n with
  | zero =>
    have hself : 0 < t.olderThan i := List.countP_pos_iff.mpr ⟨_, mem_toList.mpr hi, by simp⟩
    omega
  | succ steps ih =>
    cases hp : n.parent with
    | none => simp [upward, hi, hp]
    | some p =>
      obtain ⟨hlt, m, hm, -⟩ := ht.parent hi hp
      have hfewer := olderThan_lt hi hlt
      obtain ⟨above, habove⟩ := Option.isSome_iff_exists.mp (ih hm (by omega))
      simp [upward, hi, hp, habove]

/-- The keys of the tree are the ids that name a node, in ascending order. -/
theorem Forest.keys_eq (ht : t.Forest) : t.nodes.toList.map Prod.fst =
    (List.range t.issued).filter fun i => (t.node? i).isSome := by
  refine Sorted.eq_of_mem_iff (fun _ _ => Nat.lt_asymm) (List.pairwise_map.mpr t.toList_pairwise)
    (List.pairwise_lt_range.filter _) fun i => ?_
  simp only [List.mem_map, Prod.exists, exists_and_right, exists_eq_right, mem_toList, List.mem_filter,
    List.mem_range, Option.isSome_iff_exists]
  exact ⟨fun ⟨n, hn⟩ => ⟨ht.issued hn, n, hn⟩, fun ⟨_, hn⟩ => hn⟩

theorem Unrepeated.wellFormed (ht : t.Unrepeated) (hcounted : t.Counted) : t.WellFormed where
  once {i n} hi := by
    have hlisted := ht.forest.mem_listed hi
    split_ifs with hroot
    · exact List.count_eq_zero.mpr fun hmem => hlisted.mp hmem hroot
    · exact List.count_eq_one_of_mem ht.nodup_listed (hlisted.mpr hroot)
  parent hi hp := (ht.forest.parent hi hp).2
  live i hi := by
    obtain ⟨p, m, hm, hmem⟩ := mem_listed.mp hi
    obtain ⟨n, hn, -⟩ := ht.forest.child hm hmem
    exact Option.isSome_iff_exists.mpr ⟨n, hn⟩
  grounded hi := ht.forest.grounded hi
  path {i n} hi names root := by
    have hupward := ht.forest.upward_isSome hi (t.olderThan_le_size i)
    simpa [path?, lineage?] using hupward
  issued hi := ht.forest.issued hi
  size := by
    rw [← ht.forest.keys_eq, List.length_map, Std.ExtTreeMap.length_toList]
    exact hcounted

end shape

/-- After any changes the tree is well-formed, and what is detached then, a node with everything
below it, never comes back under its ids. -/
theorem changes_keep_shape (changes : List Change) :
    let t := empty.afterAll changes
    t.WellFormed ∧ ∀ i j, (t.node? i).isSome → t.Under i j →
      ∀ later, ((t.after (.detach i)).afterAll later).node? j = none := by
  intro t
  have ht : t.Unrepeated := Unrepeated.empty.afterAll changes
  have hcounted : t.Counted := Counted.empty.afterAll changes .empty
  refine ⟨ht.wellFormed hcounted, fun i j hi hunder later => ?_⟩
  obtain ⟨n, hn⟩ := Option.isSome_iff_exists.mp hi
  obtain ⟨m, hm⟩ := hunder.node? ht.forest hn
  have hspent : (t.after (.detach i)).Spent j := by
    refine ⟨?_, node?_detach_of_under ht.forest hn hunder⟩
    rw [after, detach_issued]
    exact ht.forest.issued hm
  exact (hspent.afterAll later (ht.after (.detach i))).gone

end DescriptorExchange.Containment
