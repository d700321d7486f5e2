import Mathlib.Data.List.Basic

/-!
Lists cut at one of their elements, as a history is cut at a moment: what came before, what happened then, and
what came later.
-/
namespace DescriptorExchange.Splits

variable {α : Type} {l front back : List α} {a b : α}

/-- A list that has grown at its end is cut at its last element, or where it could be cut before. -/
theorem concat_eq_iff : l ++ [a] = front ++ b :: back ↔
    (l = front ∧ a = b ∧ back = []) ∨ ∃ rest, l = front ++ b :: rest ∧ back = rest ++ [a] := by
  constructor
  · intro h
    rcases List.eq_nil_or_concat back with rfl | ⟨rest, last, rfl⟩
    · obtain ⟨rfl, hlast⟩ := List.append_inj' h rfl
      exact .inl ⟨rfl, List.singleton_inj.mp hlast, rfl⟩
    · rw [List.concat_eq_append, ← List.cons_append, ← List.append_assoc] at h
      obtain ⟨rfl, hlast⟩ := List.append_inj' h rfl
      obtain rfl := List.singleton_inj.mp hlast
      exact .inr ⟨rest, rfl, List.concat_eq_append⟩
  · rintro (⟨rfl, rfl, rfl⟩ | ⟨rest, rfl, rfl⟩)
    · rfl
    · simp

/-- What happens at one of some elements happens at the last of them or at one before. -/
theorem exists_concat_iff {event : List α → α → List α → Prop} :
    (∃ front b back, l ++ [a] = front ++ b :: back ∧ event front b back) ↔
      event l a [] ∨ ∃ front b back, l = front ++ b :: back ∧ event front b (back ++ [a]) := by
  simp only [concat_eq_iff]
  constructor
  · rintro ⟨front, b, back, ⟨rfl, rfl, rfl⟩ | ⟨rest, rfl, rfl⟩, hevent⟩
    · exact .inl hevent
    · exact .inr ⟨front, b, rest, rfl, hevent⟩
  · rintro (hevent | ⟨front, b, rest, rfl, hevent⟩)
    · exact ⟨l, a, [], .inl ⟨rfl, rfl, rfl⟩, hevent⟩
    · exact ⟨front, b, rest ++ [a], .inr ⟨rest, rfl, rfl⟩, hevent⟩

end DescriptorExchange.Splits
