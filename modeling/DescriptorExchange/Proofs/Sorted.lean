import Mathlib.Data.List.Sort

/-! Lists in strictly ascending order, as an ordered map lists its entries. -/
namespace DescriptorExchange.Sorted

variable {α : Type} {lt : α → α → Prop} {p : α → Bool} {l l' : List α} {x : α}

/-- A search through a sorted list finds the least element that satisfies the condition. -/
theorem find?_eq_some_iff (hasymm : ∀ a b, lt a b → ¬ lt b a) (hsorted : l.Pairwise lt) :
    l.find? p = some x ↔ x ∈ l ∧ p x ∧ ∀ y ∈ l, p y → y = x ∨ lt x y := by
  induction l with
  | nil => simp
  | cons a l ih =>
    obtain ⟨hhead, htail⟩ := List.pairwise_cons.mp hsorted
    by_cases ha : p a = true
    · rw [List.find?_cons_of_pos ha, Option.some.injEq]
      constructor
      · rintro rfl
        refine ⟨List.mem_cons_self, ha, fun y hy _ => ?_⟩
        exact (List.mem_cons.mp hy).imp_right (hhead y)
      · rintro ⟨hx, -, hmin⟩
        rcases List.mem_cons.mp hx with rfl | hx
        · rfl
        · exact (hmin a List.mem_cons_self ha).resolve_right fun h => hasymm _ _ h (hhead x hx)
    · rw [List.find?_cons_of_neg ha, ih htail]
      constructor
      · rintro ⟨hx, hpx, hmin⟩
        refine ⟨List.mem_cons_of_mem a hx, hpx, fun y hy hpy => ?_⟩
        rcases List.mem_cons.mp hy with rfl | hy
        · exact absurd hpy ha
        · exact hmin y hy hpy
      · rintro ⟨hx, hpx, hmin⟩
        refine ⟨?_, hpx, fun y hy => hmin y (List.mem_cons_of_mem a hy)⟩
        exact (List.mem_cons.mp hx).resolve_left fun h => ha (h ▸ hpx)

/-- A search through entries that are sorted by their keys finds the least key of those that satisfy the
condition. -/
theorem find?_key_eq_some_iff {κ β : Type} [LE κ] [LT κ] [Std.IsLinearOrder κ] [Std.LawfulOrderLT κ]
    {l : List (κ × β)} {p : κ × β → Bool} {k : κ} (hsorted : l.Pairwise fun a b => a.1 < b.1) :
    (l.find? p).map Prod.fst = some k ↔
      (∃ b, (k, b) ∈ l ∧ p (k, b)) ∧ ∀ j b, (j, b) ∈ l → p (j, b) → k ≤ j := by
  have hasymm (a b : κ × β) (hab : a.1 < b.1) : ¬ b.1 < a.1 :=
    Std.not_lt.mpr (Std.le_of_lt hab)
  have hleast {j : κ} {b : β} (hfind : l.find? p = some (j, b)) :
      (j, b) ∈ l ∧ p (j, b) ∧ ∀ i c, (i, c) ∈ l → p (i, c) → j ≤ i := by
    obtain ⟨hmem, hp, hmin⟩ := (find?_eq_some_iff hasymm hsorted).mp hfind
    refine ⟨hmem, hp, fun i c hc hpc => ?_⟩
    rcases hmin (i, c) hc hpc with heq | hlt
    · obtain ⟨rfl, -⟩ := Prod.mk.inj heq
      exact Std.le_refl i
    · exact Std.le_of_lt hlt
  constructor
  · intro h
    obtain ⟨⟨j, b⟩, hfind, rfl⟩ := Option.map_eq_some_iff.mp h
    obtain ⟨hmem, hp, hmin⟩ := hleast hfind
    exact ⟨⟨b, hmem, hp⟩, hmin⟩
  · rintro ⟨⟨b, hmem, hp⟩, hmin⟩
    obtain ⟨⟨j, c⟩, hfind⟩ := Option.isSome_iff_exists.mp
      (List.find?_isSome.mpr ⟨(k, b), hmem, hp⟩)
    obtain ⟨hfound, hpc, hbefore⟩ := hleast hfind
    have hjk : j = k := Std.le_antisymm (hbefore k b hmem hp) (hmin j c hfound hpc)
    rw [hfind, Option.map_some, hjk]

/-- Two sorted lists with the same elements are equal. -/
theorem eq_of_mem_iff (hasymm : ∀ a b, lt a b → ¬ lt b a) (h : l.Pairwise lt) (h' : l'.Pairwise lt)
    (hmem : ∀ x, x ∈ l ↔ x ∈ l') : l = l' := by
  have hnodup {m : List α} (hm : m.Pairwise lt) : m.Nodup :=
    hm.imp fun {a b} hab => by
      rintro rfl
      exact hasymm a a hab hab
  have hperm : l.Perm l' := (List.perm_ext_iff_of_nodup (hnodup h) (hnodup h')).mpr hmem
  exact hperm.eq_of_pairwise (fun a b _ _ hab hba => absurd hba (hasymm a b hab)) h h'

end DescriptorExchange.Sorted
