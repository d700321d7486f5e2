import DescriptorExchange.Proofs.Containment.Removal
import Mathlib.Order.Monotone.Basic

/-!
Trees that differ in the ids of their nodes only. An ascending renaming keeps the order in which
nodes were created, so every search finds the same node in both trees, and what is done to one of
them can be done to the other.
-/
namespace DescriptorExchange

def Node.rename (σ : NodeId → NodeId) (n : Node) : Node :=
  { n with parent := n.parent.map σ, children := n.children.map σ }

/-- Renames the node an entity ended up in. -/
def Placement.rename (σ : NodeId → NodeId) : Placement → Placement
  | created id => created (σ id)
  | present id => present (σ id)

namespace Containment

variable {σ : NodeId → NodeId} {t t' : Containment} {i j parent : NodeId} {n above : Node}
  {e : Entity}
  {origin : Origin}

/-- The nodes of one tree are those of the other under new ids. -/
structure Renamed (σ : NodeId → NodeId) (t t' : Containment) : Prop where
  ascending : StrictMono σ
  node? : ∀ i, t'.node? (σ i) = (t.node? i).map (·.rename σ)
  onto : ∀ {j m}, t'.node? j = some m → ∃ i, σ i = j

/-- The trees hold the same entities in the same places, whatever ids their nodes have. -/
def SameUpToIds (t t' : Containment) : Prop := ∃ σ, Renamed σ t t'

namespace Renamed

section lookup

variable (h : Renamed σ t t')
include h

theorem toList :
    t'.nodes.toList = t.nodes.toList.map fun entry => (σ entry.1, entry.2.rename σ) := by
  refine Sorted.eq_of_mem_iff (fun a b (hab : a.1 < b.1) => Nat.lt_asymm hab) t'.toList_pairwise ?_
    fun entry => ?_
  · exact t.toList_pairwise.map _ fun a b hab => h.ascending hab
  · obtain ⟨j, m⟩ := entry
    simp only [mem_toList, List.mem_map, Prod.exists, Prod.mk.injEq]
    constructor
    · intro hm
      obtain ⟨i, rfl⟩ := h.onto hm
      obtain ⟨n, hn, rfl⟩ := Option.map_eq_some_iff.mp ((h.node? i).symm.trans hm)
      exact ⟨i, n, hn, rfl, rfl⟩
    · rintro ⟨i, n, hn, rfl, rfl⟩
      rw [h.node?, hn, Option.map_some]

theorem size : t'.nodes.size = t.nodes.size := by
  have hlength := congrArg List.length h.toList
  simpa using hlength

/-- A search that does not look at ids. -/
theorem find? {p : Node → Bool} (hp : ∀ n : Node, p (n.rename σ) = p n) :
    t'.find? p = (t.find? p).map σ := by
  have hcomp :
      ((fun entry => p entry.2) ∘ fun entry : NodeId × Node => (σ entry.1, entry.2.rename σ)) =
        fun entry => p entry.2 :=
    funext fun entry => hp entry.2
  simp only [Containment.find?, h.toList, List.find?_map, hcomp, Option.map_map]
  rfl

theorem findExact? (e : Entity) : t'.findExact? e = (t.findExact? e).map σ := h.find? fun _ => rfl

theorem findUnit? (e : Entity) : t'.findUnit? e = (t.findUnit? e).map σ := h.find? fun _ => rfl

theorem entity? (i : NodeId) : t'.entity? (σ i) = t.entity? i := by
  rw [Containment.entity?, h.node?, Option.map_map]
  rfl

theorem origin? (i : NodeId) : t'.origin? (σ i) = t.origin? i := by
  rw [Containment.origin?, h.node?, Option.map_map]
  rfl

theorem parent? (i : NodeId) : t'.parent? (σ i) = (t.parent? i).map σ := by
  rw [Containment.parent?, Containment.parent?, h.node?]
  cases t.node? i <;> rfl

theorem below (depth : Nat) (i : NodeId) : t'.below depth (σ i) = (t.below depth i).map σ := by
  induction depth generalizing i with
  | zero => rfl
  | succ depth ih =>
    simp only [Containment.below, h.node?]
    cases t.node? i with
    | none => rfl
    | some n =>
      simp only [Option.map_some, List.map_cons, List.map_flatMap, Node.rename,
        List.flatMap_map, ih]

theorem subtree (i : NodeId) : t'.subtree (σ i) = (t.subtree i).map σ := by
  rw [Containment.subtree, h.size, h.below]
  rfl

end lookup

/-- Writing a node in both trees. -/
theorem insert (h : Renamed σ t t') (i : NodeId) (n : Node) (issued issued' live live' : Nat) :
    Renamed σ ⟨t.nodes.insert i n, issued, live⟩
      ⟨t'.nodes.insert (σ i) (n.rename σ), issued', live'⟩ where
  ascending := h.ascending
  node? j := by
    have hleft := node?_insert t' (σ i) (n.rename σ) (σ j)
    have hright := node?_insert t i n j
    unfold Containment.node? at hleft hright ⊢
    rw [hleft, hright]
    by_cases hj : j = i
    · simp [hj]
    · have hne : σ j ≠ σ i := fun heq => hj (h.ascending.injective heq)
      rw [if_neg hj, if_neg hne]
      exact h.node? j
  onto {j m} hm := by
    have hget := node?_insert t' (σ i) (n.rename σ) j
    unfold Containment.node? at hget hm
    rw [hget] at hm
    split_ifs at hm with hj
    · exact ⟨i, hj.symm⟩
    · exact h.onto hm

/-- Erasing nodes from both trees. -/
theorem erase (h : Renamed σ t t') (gone : List NodeId) :
    Renamed σ (gone.foldl Containment.erase t) ((gone.map σ).foldl Containment.erase t') where
  ascending := h.ascending
  node? j := by
    simp only [node?_foldl_erase, List.mem_map_of_injective h.ascending.injective]
    split_ifs
    · rfl
    · exact h.node? j
  onto {j m} hm := by
    rw [node?_foldl_erase] at hm
    split_ifs at hm
    exact h.onto hm

theorem unlink (h : Renamed σ t t') (i : NodeId) : Renamed σ (t.unlink i) (t'.unlink (σ i)) := by
  simp only [Containment.unlink, h.parent?]
  cases t.parent? i with
  | none => exact h
  | some p =>
    simp only [Option.map_some, h.node?]
    cases t.node? p with
    | none => exact h
    | some above =>
      have hfilter :
          (above.children.map σ).filter (· ≠ σ i) = (above.children.filter (· ≠ i)).map σ := by
        rw [List.filter_map]
        refine congrArg (List.map σ) (List.filter_congr fun c _ => ?_)
        simp [h.ascending.injective.eq_iff]
      have hinsert :=
        h.insert p { above with children := above.children.filter (· ≠ i) } t.issued t'.issued t.live
          t'.live
      simp only [Node.rename, ← hfilter] at hinsert
      exact hinsert

end Renamed

/-- Renamed trees that will give their next nodes renamed ids too. -/
structure Alongside (σ : NodeId → NodeId) (t t' : Containment) : Prop where
  renamed : Renamed σ t t'
  issued : ∀ more, σ (t.issued + more) = t'.issued + more

theorem Alongside.under (h : Alongside σ t t') (parent : NodeId) (above : Node) (e : Entity)
    (origin : Origin) :
    Alongside σ (t.under parent above e origin)
      (t'.under (σ parent) (above.rename σ) e origin) := by
  have hissued : σ t.issued = t'.issued := h.issued 0
  have hpush :=
    h.renamed.insert t.issued { entity := e, origin, parent := some parent, children := [] }
    (t.issued + 1) (t'.issued + 1) (t.live + 1) (t'.live + 1)
  have hlinked := hpush.insert parent { above with children := above.children ++ [t.issued] }
    (t.issued + 1) (t'.issued + 1) (t.live + 1) (t'.live + 1)
  simp only [Node.rename, Option.map_some, List.map_nil, List.map_append, List.map_cons, hissued]
    at hlinked
  refine ⟨hlinked, fun more => ?_⟩
  change σ (t.issued + 1 + more) = t'.issued + 1 + more
  rw [Nat.add_assoc, Nat.add_assoc, h.issued]

/-- Attaching to one tree is attaching to the other, with the same outcome. -/
theorem Alongside.attach (h : Alongside σ t t') (parent : NodeId) (e : Entity) (origin : Origin) :
    (∃ err err', t.attach parent e origin = .error err ∧
    t'.attach (σ parent) e origin = .error err') ∨
    ∃ s s' placement, t.attach parent e origin = .ok (s, placement) ∧
      t'.attach (σ parent) e origin = .ok (s', placement.rename σ) ∧ Alongside σ s s' := by
  simp only [Containment.attach, h.renamed.node?]
  cases t.node? parent with
  | none => exact .inl ⟨_, _, rfl, rfl⟩
  | some above =>
    have hchild :
        ((fun c => decide (t'.entity? c = some e)) ∘ σ) = fun c => decide (t.entity? c = some e) :=
      funext fun c => by simp only [Function.comp_apply, h.renamed.entity?]
    simp only [Option.map_some, Node.rename, List.find?_map, hchild]
    cases above.children.find? fun c => decide (t.entity? c = some e) with
    | some c => exact .inr ⟨t, t', .present c, rfl, rfl, h⟩
    | none =>
      simp only [Option.map_none, h.renamed.findExact?]
      cases t.findExact? e with
      | some id => exact .inl ⟨_, _, rfl, rfl⟩
      | none =>
        have hissued : σ t.issued = t'.issued := h.issued 0
        refine .inr ⟨t.under parent above e origin, t'.under (σ parent) (above.rename σ) e origin,
          .created t.issued, rfl, ?_, h.under parent above e origin⟩
        simp only [Placement.rename, hissued]
        rfl

/-- Removing a node from one tree is removing it from the other, and the same entities go. -/
theorem Alongside.detach (h : Alongside σ t t') (i : NodeId) :
    (t'.detach (σ i)).2 = (t.detach i).2 ∧ Alongside σ (t.detach i).1 (t'.detach (σ i)).1 := by
  have hgone := h.renamed.subtree i
  constructor
  · have hentity : t'.entity? ∘ σ = t.entity? := funext h.renamed.entity?
    simp only [Containment.detach, hgone, List.filterMap_map, hentity]
  · refine ⟨?_, fun more => ?_⟩
    · simp only [Containment.detach, hgone]
      exact (h.renamed.unlink i).erase _
    · simp only [detach_issued, h.issued]

/-- Leaves a gap in front of all ids from a first one on. -/
def shift (first gap : Nat) (i : NodeId) : NodeId := if i < first then i else i + gap

theorem shift_of_lt {first i : Nat} (gap : Nat) (h : i < first) : shift first gap i = i := if_pos h

theorem shift_add (first gap more : Nat) : shift first gap (first + more) = first + gap + more := by
  rw [shift, if_neg (Nat.not_lt.mpr (Nat.le_add_right first more)), Nat.add_right_comm]

theorem le_shift {first i : Nat} (gap : Nat) (h : first ≤ i) : first ≤ shift first gap i := by
  rw [shift, if_neg (Nat.not_lt.mpr h)]
  exact Nat.le_add_right_of_le h

theorem shift_strictMono (first gap : Nat) : StrictMono (shift first gap) := by
  intro (i : Nat) (j : Nat) (hij : (i : Nat) < j)
  change (if i < first then i else i + gap : Nat) < if j < first then j else j + gap
  split_ifs <;> omega

/-- A tree that has handed out more ids. -/
theorem Forest.alongside (ht : t.Forest) (hnodes : t'.nodes = t.nodes)
    (hle : t.issued ≤ t'.issued) :
    ∃ σ, Alongside σ t t' := by
  have hnode (i : NodeId) : t'.node? i = t.node? i := by rw [node?, hnodes, node?]
  obtain ⟨gap, hgap⟩ := Nat.exists_eq_add_of_le hle
  have hold {i : NodeId} {n : Node} (hn : t.node? i = some n) : shift t.issued gap i = i :=
    shift_of_lt gap (ht.issued hn)
  have hkept {i : NodeId} {n : Node} (hn : t.node? i = some n) :
      n.rename (shift t.issued gap) = n := by
    have hchildren : n.children.map (shift t.issued gap) = n.children := by
      refine (List.map_congr_left fun c hc => ?_).trans (List.map_id _)
      obtain ⟨m, hm, -⟩ := ht.child hn hc
      exact hold hm
    have hparent : n.parent.map (shift t.issued gap) = n.parent := by
      cases hp : n.parent with
      | none => rfl
      | some p =>
        obtain ⟨-, m, hm, -⟩ := ht.parent hn hp
        rw [Option.map_some, hold hm]
    rw [Node.rename, hchildren, hparent]
  refine ⟨shift t.issued gap, ⟨shift_strictMono _ _, fun i => ?_, fun {j m} hm => ?_⟩,
    fun more => ?_⟩
  · by_cases hi : i < t.issued
    · rw [shift_of_lt gap hi, hnode]
      cases hn : t.node? i with
      | none => rfl
      | some n => rw [Option.map_some, hkept hn]
    · have hnone {k : NodeId} (hk : t.issued ≤ k) : t.node? k = none := by
        cases hn : t.node? k with
        | none => rfl
        | some n => exact absurd (ht.issued hn) (Nat.not_lt.mpr hk)
      have hle := Nat.le_of_not_lt hi
      rw [hnode, hnone (le_shift gap hle), hnone hle, Option.map_none]
  · exact ⟨j, hold ((hnode j).symm.trans hm)⟩
  · rw [shift_add, hgap]

end Containment
end DescriptorExchange
