import DescriptorExchange.Proofs.Containment.Growth
import DescriptorExchange.Proofs.Containment.Shape
import Mathlib.Data.List.Forall2

/-!
What a removal takes out, exactly. The ids that go are those of the node and of everything below it, once
each and in depth-first order, and the size falls by their number; the parent forgets the node, and no other
node changes. Taking nodes out one by one, from a stack of what is still to go, comes to the same.
-/
namespace DescriptorExchange.Containment

variable {t u w : Containment} {i j k c d : NodeId} {n m : Node} {es : List Entity}

section order

/-- A node and all that lies below it: the node first, then what each of its children stands for, in the order
in which they were attached. -/
inductive Preorder (t : Containment) : NodeId → List NodeId → Prop
  | node {i : NodeId} {n : Node} {walks : List (List NodeId)} (hi : t.node? i = some n)
      (h : List.Forall₂ (Preorder t) n.children walks) : Preorder t i (i :: walks.flatten)

theorem preorder_below (ht : t.Forest) {depth : Nat} (hi : t.node? i = some n)
    (hdepth : t.youngerThan i ≤ depth) : t.Preorder i (t.below depth i) := by
  induction depth generalizing i n with
  | zero =>
    have := youngerThan_lt hi (Nat.lt_succ_self i)
    omega
  | succ depth ih =>
    simp only [below, hi, List.flatMap_def]
    refine .node hi (List.forall₂_map_right_iff.mpr (List.forall₂_same.mpr fun c hc => ?_))
    obtain ⟨m, hm, hparent⟩ := ht.child hi hc
    have hlt := youngerThan_lt hi (ht.parent hm hparent).1
    exact ih hm (by omega)

/-- Of two nodes above a third one lies below the other. -/
theorem Under.comparable (ht : t.Forest) (hi : t.Under i k) (hj : t.Under j k) :
    t.Under i j ∨ t.Under j i := by
  induction hi with
  | refl => exact .inr hj
  | child h hm hc ih =>
    cases hj with
    | refl => exact .inl (h.child hm hc)
    | child h' hm' hc' =>
      obtain ⟨n, hn, hparent⟩ := ht.child hm hc
      obtain ⟨n', hn', hparent'⟩ := ht.child hm' hc'
      obtain rfl := Option.some.inj (hn.symm.trans hn')
      obtain rfl := Option.some.inj (hparent.symm.trans hparent')
      exact ih h'

/-- No node lies below two children of another one. -/
theorem Under.eq_of_siblings (ht : t.Forest) (hi : t.node? i = some n) (hc : c ∈ n.children)
    (hd : d ∈ n.children) (hcj : t.Under c j) (hdj : t.Under d j) : c = d := by
  have hnot {a b : NodeId} (ha : a ∈ n.children) (hb : b ∈ n.children) (hab : t.Under a b) : b = a := by
    by_contra hne
    obtain ⟨m, p, hm, hp, hap⟩ := hab.parent ht hne
    obtain ⟨m', hm', hi'⟩ := ht.child hi hb
    obtain rfl := Option.some.inj (hm.symm.trans hm')
    obtain rfl := Option.some.inj (hp.symm.trans hi')
    obtain ⟨a', ha', hparent⟩ := ht.child hi ha
    exact Nat.not_lt.mpr (hap.le ht) (ht.parent ha' hparent).1
  rcases hcj.comparable ht hdj with hcd | hdc
  · exact (hnot hc hd hcd).symm
  · exact hnot hd hc hdc

theorem nodup_below (ht : t.Unrepeated) (depth : Nat) (i : NodeId) : (t.below depth i).Nodup := by
  induction depth generalizing i with
  | zero => exact .nil
  | succ depth ih =>
    unfold below
    split
    next => exact .nil
    next n hi =>
      refine List.nodup_cons.mpr ⟨fun hmem => ?_, List.nodup_flatMap.mpr ⟨fun c _ => ih c, ?_⟩⟩
      · obtain ⟨c, hc, hci⟩ := List.mem_flatMap.mp hmem
        obtain ⟨m, hm, hparent⟩ := ht.forest.child hi hc
        have hle := (node?_and_under_of_mem_below hci).2.le ht.forest
        exact Nat.not_lt.mpr hle (ht.forest.parent hm hparent).1
      · refine (ht.nodup hi).imp_of_mem fun {c d} hc hd hne j hcj hdj => hne ?_
        exact Under.eq_of_siblings ht.forest hi hc hd (node?_and_under_of_mem_below hcj).2
          (node?_and_under_of_mem_below hdj).2

/-- Every id of a subtree names a node, so each gives an entity. -/
theorem map_entity?_below (t : Containment) (depth : Nat) (i : NodeId) :
    (t.below depth i).map t.entity? = ((t.below depth i).filterMap t.entity?).map some := by
  have hlive : ∀ j ∈ t.below depth i, ∃ e, t.entity? j = some e := by
    intro j hj
    obtain ⟨⟨m, hm⟩, -⟩ := node?_and_under_of_mem_below hj
    exact ⟨m.entity, entity?_eq_some.mpr ⟨m, hm, rfl⟩⟩
  generalize t.below depth i = ids at hlive ⊢
  induction ids with
  | nil => rfl
  | cons j rest ih =>
    obtain ⟨⟨e, he⟩, hrest⟩ := List.forall_mem_cons.mp hlive
    rw [List.map_cons, List.filterMap_cons_some he, List.map_cons, he, ih hrest]

end order

section size

/-- A node that is taken out is counted. -/
theorem size_erase (ht : t.Counted) (hi : t.node? i = some n) : (t.erase i).size + 1 = t.size := by
  have hpos : 0 < t.size := Nat.pos_of_ne_zero fun hzero => by
    have hmem : i ∈ t.nodes := mem_nodes_iff.mpr (by rw [hi]; rfl)
    simp [Std.ExtTreeMap.eq_empty_iff_size_eq_zero.mpr (ht.symm.trans hzero)] at hmem
  simp only [erase, hi]
  exact Nat.sub_add_cancel hpos

theorem size_foldl_erase {gone : List NodeId} (ht : t.Counted) (hnodup : gone.Nodup)
    (hlive : ∀ j ∈ gone, (t.node? j).isSome) :
    (gone.foldl erase t).size + gone.length = t.size := by
  induction gone generalizing t with
  | nil => rfl
  | cons first rest ih =>
    obtain ⟨hnew, hnodup⟩ := List.nodup_cons.mp hnodup
    obtain ⟨hfirst, hrest⟩ := List.forall_mem_cons.mp hlive
    have hleft : ∀ j ∈ rest, ((t.erase first).node? j).isSome := by
      intro j hj
      have hne : j ≠ first := fun heq => hnew (heq ▸ hj)
      rw [node?_erase, if_neg hne]
      exact hrest j hj
    obtain ⟨n, hn⟩ := Option.isSome_iff_exists.mp hfirst
    have hone := size_erase ht hn
    have hsize := ih (ht.erase first) hnodup hleft
    rw [List.foldl_cons, List.length_cons]
    omega

theorem size_unlink (t : Containment) (i : NodeId) : (t.unlink i).size = t.size := by
  unfold unlink
  split
  next => rfl
  next => split <;> rfl

end size

section stack

/-- Nodes are taken out one by one. The next id is the one on top of the stack; one that names no node is passed
over, and in the place of one that does its children are put on the stack, the first of them on top. -/
inductive Clears : Containment → List NodeId → List Entity → Containment → Prop
  | done {t : Containment} : Clears t [] [] t
  | pass {t u : Containment} {i : NodeId} {stack : List NodeId} {es : List Entity}
      (hi : t.node? i = none) (h : Clears t stack es u) : Clears t (i :: stack) es u
  | take {t u : Containment} {i : NodeId} {n : Node} {stack : List NodeId} {es : List Entity}
      (hi : t.node? i = some n) (h : Clears (t.erase i) (n.children ++ stack) es u) :
      Clears t (i :: stack) (n.entity :: es) u

/-- There is but one way to go on. -/
theorem Clears.unique {stack : List NodeId} {fs : List Entity} (h : Clears t stack es u)
    (h' : Clears t stack fs w) : es = fs ∧ u = w := by
  induction h generalizing fs with
  | done =>
    cases h'
    exact ⟨rfl, rfl⟩
  | pass hi _ ih =>
    cases h' with
    | pass _ h' => exact ih h'
    | take hi' _ => simp [hi] at hi'
  | take hi _ ih =>
    cases h' with
    | pass hi' _ => simp [hi] at hi'
    | take hi' h' =>
      obtain rfl := Option.some.inj (hi.symm.trans hi')
      obtain ⟨rfl, rfl⟩ := ih h'
      exact ⟨rfl, rfl⟩

theorem node?_foldl_erase_of_not_mem {gone : List NodeId} (hj : j ∉ gone) :
    (gone.foldl erase w).node? j = w.node? j := by
  rw [node?_foldl_erase, if_neg hj]

/-- Where each of some ids stands for others, which are taken out before the stack, so do all of them: what one
leaves is as it was for the next. -/
theorem clears_append {ids : NodeId → List NodeId} {siblings stack : List NodeId}
    (hone : ∀ c ∈ siblings, ∀ {w es stack}, (∀ j ∈ ids c, w.node? j = t.node? j) →
      Clears ((ids c).foldl erase w) stack es u →
      Clears w (c :: stack) ((ids c).filterMap t.entity? ++ es) u)
    (hnodup : (siblings.flatMap ids).Nodup)
    (hsame : ∀ j ∈ siblings.flatMap ids, w.node? j = t.node? j)
    (h : Clears ((siblings.flatMap ids).foldl erase w) stack es u) :
    Clears w (siblings ++ stack) ((siblings.flatMap ids).filterMap t.entity? ++ es) u := by
  induction siblings generalizing w with
  | nil => exact h
  | cons c rest ih =>
    rw [List.flatMap_cons] at hnodup hsame h ⊢
    rw [List.filterMap_append, List.append_assoc]
    rw [List.foldl_append] at h
    obtain ⟨hfirst, hothers⟩ := List.forall_mem_cons.mp hone
    obtain ⟨-, hrest, hdisjoint⟩ := List.nodup_append'.mp hnodup
    refine hfirst (fun j hj => hsame j (List.mem_append_left _ hj)) ?_
    refine ih hothers hrest (fun j hj => ?_) h
    rw [node?_foldl_erase_of_not_mem fun hmem => hdisjoint hmem hj]
    exact hsame j (List.mem_append_right _ hj)

/-- What lies below a node is taken out before the rest of the stack, as long as it is all there. -/
theorem clears_below (ht : t.Unrepeated) {depth : Nat} {stack : List NodeId} (hi : t.node? i = some n)
    (hdepth : t.youngerThan i ≤ depth) (hsame : ∀ j ∈ t.below depth i, w.node? j = t.node? j)
    (h : Clears ((t.below depth i).foldl erase w) stack es u) :
    Clears w (i :: stack) ((t.below depth i).filterMap t.entity? ++ es) u := by
  induction depth generalizing i n w stack es with
  | zero =>
    have := youngerThan_lt hi (Nat.lt_succ_self i)
    omega
  | succ depth ih =>
    have hnodup := nodup_below ht (depth + 1) i
    have hentity : t.entity? i = some n.entity := entity?_eq_some.mpr ⟨n, hi, rfl⟩
    simp only [below, hi] at hsame h hnodup ⊢
    obtain ⟨hself, hrest⟩ := List.forall_mem_cons.mp hsame
    obtain ⟨hnew, hnodup⟩ := List.nodup_cons.mp hnodup
    rw [List.filterMap_cons_some hentity]
    refine .take (hself.trans hi) (clears_append (fun c hc => ?_) hnodup (fun j hj => ?_) h)
    · obtain ⟨m, hm, hparent⟩ := ht.forest.child hi hc
      have hlt := youngerThan_lt hi (ht.forest.parent hm hparent).1
      intro w es stack hthere hclears
      exact ih hm (by omega) hthere hclears
    · have hne : j ≠ i := fun heq => hnew (heq ▸ hj)
      rw [node?_erase, if_neg hne, hrest j hj]

end stack

section removal

/-- What a removal takes out of a tree, and what it leaves. -/
structure TakesOut (t : Containment) (i : NodeId) (n : Node) (u : Containment) (gone : List Entity) :
    Prop where
  /-- The entities of the node and of all that lies below it, of each node once, in depth-first order. -/
  order : ∃ ids, t.Preorder i ids ∧ ids.Nodup ∧ (∀ j, j ∈ ids ↔ t.Under i j) ∧
    ids.map t.entity? = gone.map some
  /-- Ids are handed out in ascending order, so siblings come in the order in which they were attached. -/
  attached : ∀ {j m}, t.node? j = some m → m.children.Pairwise (· < ·)
  dead : ∀ j, (t.node? j).isSome ∧ u.node? j = none ↔ t.Under i j
  size : u.size + gone.length = t.size
  issued : u.issued = t.issued
  /-- The parent is left without the child. -/
  forgotten : ∀ p, n.parent = some p → ∃ above, t.node? p = some above ∧ i ∈ above.children ∧
    u.node? p = some (above.without i)
  kept : ∀ j, ¬ t.Under i j → n.parent ≠ some j → u.node? j = t.node? j

/-- Below the node all is as it was when its parent has forgotten it. -/
theorem node?_unlink_of_under (ht : t.Forest) (hi : t.node? i = some n) (hj : t.Under i j) :
    (t.unlink i).node? j = t.node? j := by
  obtain ⟨m, hm⟩ := hj.node? ht hi
  have hparent : n.parent ≠ some j := fun hp => Nat.not_lt.mpr (hj.le ht) (ht.parent hi hp).1
  rw [node?_unlink ht hi, hm, Option.map_some, ht.without_eq hi hm hparent]

theorem clears_detach (ht : t.Unrepeated) (hi : t.node? i = some n) :
    Clears (t.unlink i) [i] (t.detach i).2 (t.detach i).1 := by
  have hclears := clears_below ht hi (t.youngerThan_le_size i)
    (fun j hj => node?_unlink_of_under ht.forest hi ((mem_subtree ht.forest hi).mp hj)) .done
  rwa [List.append_nil] at hclears

theorem takesOut_detach (ht : t.Unrepeated) (hcounted : t.Counted) (hi : t.node? i = some n) :
    t.TakesOut i n (t.detach i).1 (t.detach i).2 where
  order := ⟨t.subtree i, preorder_below ht.forest hi (t.youngerThan_le_size i), nodup_below ht _ i,
    fun _ => mem_subtree ht.forest hi, map_entity?_below t _ i⟩
  attached := ht.ascending
  dead j := by
    constructor
    · rintro ⟨hlive, hgone⟩
      by_contra hout
      rw [node?_detach ht.forest hi hout, Option.map_eq_none_iff] at hgone
      simp [hgone] at hlive
    · intro hunder
      obtain ⟨m, hm⟩ := hunder.node? ht.forest hi
      exact ⟨by rw [hm]; rfl, node?_detach_of_under ht.forest hi hunder⟩
  size := by
    have hlength := congrArg List.length (map_entity?_below t t.nodes.size i)
    rw [List.length_map, List.length_map] at hlength
    have hlive : ∀ j ∈ t.subtree i, ((t.unlink i).node? j).isSome := by
      intro j hj
      have hunder := (mem_subtree ht.forest hi).mp hj
      obtain ⟨m, hm⟩ := hunder.node? ht.forest hi
      rw [node?_unlink_of_under ht.forest hi hunder, hm]
      rfl
    rw [← size_unlink t i]
    exact hlength ▸ size_foldl_erase (hcounted.unlink i) (nodup_below ht _ i) hlive
  issued := t.detach_issued i
  forgotten p hp := by
    obtain ⟨hlt, above, habove, hmem⟩ := ht.forest.parent hi hp
    refine ⟨above, habove, hmem, ?_⟩
    rw [node?_detach ht.forest hi fun hunder => Nat.not_lt.mpr (hunder.le ht.forest) hlt, habove]
    rfl
  kept j hout hparent := by
    rw [node?_detach ht.forest hi hout]
    cases hm : t.node? j with
    | none => rfl
    | some m => exact congrArg some (ht.forest.without_eq hi hm hparent)

end removal

/-- Detaching a node of a tree takes out exactly its subtree, as taking out its nodes one by one from a stack
does. Detaching what is not there changes nothing. -/
theorem detach_takes_subtree (changes : List Change) (i : NodeId) :
    let t := empty.afterAll changes
    (t.node? i = none → t.detach i = (t, [])) ∧
    ∀ n, t.node? i = some n → t.TakesOut i n (t.detach i).1 (t.detach i).2 ∧
      ∀ u gone, Clears (t.unlink i) [i] gone u ↔ t.detach i = (u, gone) := by
  intro t
  have ht : t.Unrepeated := Unrepeated.empty.afterAll changes
  have hcounted : t.Counted := Counted.empty.afterAll changes .empty
  refine ⟨detach_of_none, fun n hi => ⟨takesOut_detach ht hcounted hi, fun u gone => ⟨fun h => ?_, ?_⟩⟩⟩
  · obtain ⟨rfl, rfl⟩ := h.unique (clears_detach ht hi)
    rfl
  · rintro h
    have hclears := clears_detach ht hi
    rwa [h] at hclears

/-- A system with two chassis; in the first there are two boards, and a chip on one of them. -/
def twoChassis : List Change :=
  [.addRoot ⟨11521, 1, 0⟩ .own, .attach 0 ⟨45, 1, 1⟩ .own, .attach 1 ⟨64, 1, 2⟩ .host,
    .attach 1 ⟨64, 2, 2⟩ .host, .attach 2 ⟨135, 1, 3⟩ .host, .attach 0 ⟨45, 2, 1⟩ .own]

/-- The first chassis goes with its boards; the chip goes after its own board and before the other one. -/
theorem detach_takes_subtree_chassis :
    let t := empty.afterAll twoChassis
    let chassis : Node := ⟨⟨45, 1, 1⟩, .own, some 0, [2, 3]⟩
    t.node? 1 = some chassis ∧ t.TakesOut 1 chassis (t.detach 1).1 (t.detach 1).2 ∧
      (t.detach 1).2 = [⟨45, 1, 1⟩, ⟨64, 1, 2⟩, ⟨135, 1, 3⟩, ⟨64, 2, 2⟩] ∧
      t.node? 6 = none ∧ t.detach 6 = (t, []) := by
  intro t chassis
  have hchassis : t.node? 1 = some chassis := by decide +kernel
  have hnone : t.node? 6 = none := by decide +kernel
  have htakes := ((detach_takes_subtree twoChassis 1).2 chassis hchassis).1
  exact ⟨hchassis, htakes, by decide +kernel, hnone, (detach_takes_subtree twoChassis 6).1 hnone⟩

end DescriptorExchange.Containment
