import DescriptorExchange.Proofs.Repository.Storing

/-!
The handles an operation reports are the only ones under which it has changed anything. This holds
of every repository, whatever its records look like.
-/
namespace DescriptorExchange.Repository

variable {r s : Repository} {j k : RecordHandle}

theorem get?_of_insert {origin : Origin} {bytes : Bytes} (h : r.insert origin bytes = .ok (s, k))
    (hj : j ≠ k) : s.get? j = r.get? j := by
  obtain ⟨_, _, _, -, -, -, rfl⟩ := insert_eq_ok.mp h
  exact r.get?_put_ne _ hj

theorem putAssociation_eq (r : Repository) (k : RecordHandle) (changeNumber : UInt16)
    (a : Association) :
    r.putAssociation k changeNumber a = match r.get? k with
      | none => r
      | some record => r.put k { record with bytes := encodeRecordAs k changeNumber a } := rfl

theorem get?_putAssociation_ne (changeNumber : UInt16) (a : Association) (hj : j ≠ k) :
    (r.putAssociation k changeNumber a).get? j = r.get? j := by
  rw [putAssociation_eq]
  cases r.get? k with
  | none => rfl
  | some record => exact r.get?_put_ne _ hj

theorem get?_dropChild_ne (header : RecordHeader) (a : Association) (child : Entity) (hj : j ≠ k) :
    (r.dropChild k header a child).get? j = r.get? j := by
  simp only [dropChild]
  split
  · rw [get?_erase, if_neg hj]
  · exact get?_putAssociation_ne _ _ hj

@[simp] theorem putAssociation_ownRange (r : Repository) (k : RecordHandle) (n : UInt16)
    (a : Association) :
    (r.putAssociation k n a).ownRange = r.ownRange := by
  rw [putAssociation_eq]
  cases r.get? k <;> rfl

@[simp] theorem putAssociation_hostRange (r : Repository) (k : RecordHandle) (n : UInt16)
    (a : Association) :
    (r.putAssociation k n a).hostRange = r.hostRange := by
  rw [putAssociation_eq]
  cases r.get? k <;> rfl

@[simp] theorem dropChild_ownRange (header : RecordHeader) (a : Association) (e : Entity) :
    (r.dropChild k header a e).ownRange = r.ownRange := by
  simp only [dropChild]
  split_ifs <;> simp

@[simp] theorem dropChild_hostRange (header : RecordHeader) (a : Association) (e : Entity) :
    (r.dropChild k header a e).hostRange = r.hostRange := by
  simp only [dropChild]
  split_ifs <;> simp

theorem addChild_eq_ok {child : Entity} {changed : Bool}
    (h : r.addChild k child = .ok (s, changed)) :
    ∃ header a, r.association k = .ok (header, a) ∧
      ((child ∈ a.children ∧ s = r ∧ changed = false) ∨
        (child ∉ a.children ∧ a.children.length ≠ Association.maxChildren ∧ changed = true ∧
          s = r.putAssociation k header.changeNumber
          { a with children := a.children ++ [child] })) := by
  unfold addChild at h
  cases ha : r.association k with
  | error e => simp [ha, bind, Except.bind] at h
  | ok found =>
    obtain ⟨header, a⟩ := found
    refine ⟨header, a, rfl, ?_⟩
    simp only [ha, bind, Except.bind, pure, Except.pure] at h
    split_ifs at h with hmem hfull
    · obtain ⟨rfl, rfl⟩ := Prod.mk.inj (Except.ok.inj h)
      exact .inl ⟨hmem, rfl, rfl⟩
    · obtain ⟨rfl, rfl⟩ := Prod.mk.inj (Except.ok.inj h)
      exact .inr ⟨hmem, hfull, rfl, rfl⟩

theorem removeChild_eq_ok {child : Entity} {changed : Bool} :
    r.removeChild k child = .ok (s, changed) ↔ ∃ header a, r.association k = .ok (header, a) ∧
      ((child ∈ a.children ∧ s = r.dropChild k header a child ∧ changed = true) ∨
        (child ∉ a.children ∧ s = r ∧ changed = false)) := by
  unfold removeChild
  cases ha : r.association k with
  | error e => simp [bind, Except.bind]
  | ok found =>
    obtain ⟨header, a⟩ := found
    simp only [bind, Except.bind, pure, Except.pure, Except.ok.injEq, Prod.mk.injEq]
    split_ifs <;> grind

theorem get?_of_addChild {child : Entity} {changed : Bool}
    (h : r.addChild k child = .ok (s, changed))
    (hj : changed = true → j ≠ k) : s.get? j = r.get? j := by
  obtain ⟨header, a, -, ⟨-, rfl, -⟩ | ⟨-, -, rfl, rfl⟩⟩ := addChild_eq_ok h
  · rfl
  · exact get?_putAssociation_ne _ _ (hj rfl)

theorem get?_of_removeChild {child : Entity} {changed : Bool}
    (h : r.removeChild k child = .ok (s, changed)) (hj : changed = true → j ≠ k) :
    s.get? j = r.get? j := by
  obtain ⟨header, a, -, ⟨-, rfl, rfl⟩ | ⟨-, rfl, -⟩⟩ := removeChild_eq_ok.mp h
  · exact get?_dropChild_ne _ _ _ (hj rfl)
  · rfl

theorem associate_eq_ok {parent child : Entity} {kind : UInt8} {changed : Bool}
    (h : r.associate parent kind child = .ok (s, k, changed)) :
    (r.findAssociation? parent kind r.ownRange = some k ∧ r.addChild k child = .ok (s, changed)) ∨
      (r.findAssociation? parent kind r.ownRange = none ∧ changed = true ∧
        r.createAssociation parent kind child = .ok (s, k)) := by
  unfold associate at h
  cases hf : r.findAssociation? parent kind r.ownRange with
  | none =>
    simp only [hf] at h
    cases hc : r.createAssociation parent kind child with
    | error e => simp [hc, Except.map] at h
    | ok made =>
      simp only [hc, Except.map, Except.ok.injEq, Prod.mk.injEq] at h
      obtain ⟨rfl, rfl, rfl⟩ := h
      exact .inr ⟨rfl, rfl, rfl⟩
  | some found =>
    simp only [hf] at h
    cases hc : r.addChild found child with
    | error e => simp [hc, Except.map] at h
    | ok made =>
      simp only [hc, Except.map, Except.ok.injEq, Prod.mk.injEq] at h
      obtain ⟨rfl, rfl, rfl⟩ := h
      exact .inl ⟨rfl, hc⟩

theorem get?_of_associate {parent child : Entity} {kind : UInt8} {changed : Bool}
    (h : r.associate parent kind child = .ok (s, k, changed)) (hj : changed = true → j ≠ k) :
    s.get? j = r.get? j := by
  rcases associate_eq_ok h with ⟨-, hadd⟩ | ⟨-, rfl, hnew⟩
  · exact get?_of_addChild hadd hj
  · exact get?_of_insert hnew (hj rfl)

/-- Editing records one after another leaves alone what is under none of their handles. -/
theorem get?_foldl_ne {α : Type} {edit : Repository → RecordHandle × α → Repository}
    (hedit : ∀ r entry j, j ≠ entry.1 → (edit r entry).get? j = r.get? j) {j : RecordHandle}
    {entries : List (RecordHandle × α)} (hj : j ∉ entries.map Prod.fst) (r : Repository) :
    (entries.foldl edit r).get? j = r.get? j := by
  induction entries generalizing r with
  | nil => rfl
  | cons entry rest ih =>
    simp only [List.map_cons, List.mem_cons, not_or] at hj
    rw [List.foldl_cons, ih hj.2, hedit r entry j hj.1]

end DescriptorExchange.Repository
