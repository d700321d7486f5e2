import DescriptorExchange.Proofs.Repository.Rewriting

/-!
Two repositories that differ under some handles only, none of which carries an association record.
An operation on association records, or under other handles, comes to the same in both of them,
and finds and hands out the same handles.
-/
namespace DescriptorExchange.Repository

variable {b r s : Repository} {j k : RecordHandle} {hidden : RecordHandle → Prop}
  {parent child e : Entity}
  {kind : UInt8} {range : HandleRange} {origin : Origin}

namespace Rewritten

variable (h : Rewritten r s)
include h

theorem isSome_get? (k : RecordHandle) : (s.get? k).isSome = (r.get? k).isSome := by
  have hlabel := congrArg Option.isSome (h.label k)
  simpa [label?] using hlabel

theorem mem_records_iff (k : RecordHandle) : k ∈ s.records ↔ k ∈ r.records := by
  rw [mem_records, mem_records, h.isSome_get?]

theorem keys : s.toList.map Prod.fst = r.toList.map Prod.fst := by
  have hsorted (r : Repository) : (r.toList.map Prod.fst).Pairwise (· < ·) :=
    List.pairwise_map.mpr r.toList_pairwise
  refine Sorted.eq_of_mem_iff (fun a b hab => UInt32.lt_asymm hab) (hsorted s) (hsorted r)
    fun k => ?_
  simp only [List.mem_map, Prod.exists, mem_toList, exists_and_right, exists_eq_right,
    ← Option.isSome_iff_exists, h.isSome_get?]

theorem size : s.records.size = r.records.size := by
  have hlength := congrArg List.length h.keys
  simpa [toList] using hlength

theorem lastHandle? (range : HandleRange) : s.lastHandle? range = r.lastHandle? range := by
  have hkeys (r : Repository) :
      (r.inRange range).map Prod.fst = (r.toList.map Prod.fst).filter range.contains := by
    rw [List.filter_map]
    rfl
  rw [Repository.lastHandle?, Repository.lastHandle?, ← List.getLast?_map,
    ← List.getLast?_map, hkeys,
    hkeys, h.keys]

theorem firstFree? (last : RecordHandle) (tries : Nat) (first : RecordHandle) :
    s.firstFree? last tries first = r.firstFree? last tries first := by
  induction tries generalizing first with
  | zero => rfl
  | succ tries ih => simp only [Repository.firstFree?, h.mem_records_iff, ih]

/-- A new record gets the same handle in both. -/
theorem slot? (origin : Origin) (own : RecordHandle) : s.slot? origin own = r.slot? origin own := by
  have hrange : s.range origin = r.range origin := by
    cases origin with
    | own => exact h.ownRange
    | host => exact h.hostRange
  simp only [Repository.slot?, nextFree?, hrange, h.mem_records_iff, h.lastHandle?, h.size,
    h.firstFree?]

theorem associations (range : HandleRange) : s.associations range = r.associations range := by
  refine Sorted.eq_of_mem_iff (fun a b (hab : a.1 < b.1) => UInt32.lt_asymm hab)
    (s.associations_pairwise range) (r.associations_pairwise range) fun entry => ?_
  obtain ⟨k, header, a⟩ := entry
  rw [mem_associations, mem_associations]
  apply exists_congr
  intro record
  constructor
  · rintro ⟨hget, hin, htype, hdecode⟩
    exact ⟨(h.kept htype).mp hget, hin, htype, hdecode⟩
  · rintro ⟨hget, hin, htype, hdecode⟩
    exact ⟨(h.kept htype).mpr hget, hin, htype, hdecode⟩

theorem findAssociation? (parent : Entity) (kind : UInt8) :
    s.findAssociation? parent kind s.ownRange = r.findAssociation? parent kind r.ownRange := by
  rw [Repository.findAssociation?, Repository.findAssociation?, h.ownRange, h.associations]

theorem findContainer? (type number : UInt16) (range : HandleRange) :
    s.findContainer? type number range = r.findContainer? type number range := by
  rw [Repository.findContainer?, Repository.findContainer?, h.associations]

/-- Edits that come to the same record under one handle. -/
theorem edit {r' s' : Repository} (hown : s'.ownRange = r'.ownRange)
    (hhost : s'.hostRange = r'.hostRange)
    (hk : s'.get? k = r'.get? k) (hr : ∀ j, j ≠ k → r'.get? j = r.get? j)
    (hs : ∀ j, j ≠ k → s'.get? j = s.get? j) : Rewritten r' s' where
  ownRange := hown
  hostRange := hhost
  label j := by
    by_cases hj : j = k
    · rw [label?, label?, hj, hk]
    · rw [label?, hs j hj, label?, hr j hj]
      exact h.label j
  kept {j record} htype := by
    by_cases hj : j = k
    · rw [hj, hk]
    · rw [hs j hj, hr j hj]
      exact h.kept htype

end Rewritten

/-- The second repository has the records of a third one under the hidden handles, and under all
others those of the first. -/
structure Overlaid (hidden : RecordHandle → Prop) (b r s : Repository) : Prop where
  rewritten : Rewritten r s
  outside : ∀ {k}, ¬ hidden k → s.get? k = r.get? k
  inside : ∀ {k}, hidden k → s.get? k = b.get? k
  covered : ∀ {k}, hidden k → ∃ label, r.label? k = some label ∧ label.1 ≠ .entityAssociation
  proper : ∀ origin, (r.range origin).first ≤ (r.range origin).last

namespace Overlaid

variable (h : Overlaid hidden b r s)
include h

theorem not_hidden_of_free (hfree : r.get? k = none) : ¬ hidden k := by
  intro hk
  obtain ⟨label, hlabel, -⟩ := h.covered hk
  simp [label?, hfree] at hlabel

theorem not_hidden_of_type {record : Record} (hget : r.get? k = some record)
    (htype : record.type = .entityAssociation) : ¬ hidden k := by
  intro hk
  obtain ⟨label, hlabel, hne⟩ := h.covered hk
  obtain rfl := Option.some.inj ((label?_of_get? hget).symm.trans hlabel)
  exact hne htype

theorem not_hidden_of_mem {header : RecordHeader} {a : Association}
    (hmem : (k, header, a) ∈ r.associations range) : ¬ hidden k := by
  obtain ⟨record, hget, -, htype, -⟩ := mem_associations.mp hmem
  exact h.not_hidden_of_type hget htype

theorem edit {r' s' : Repository} (hk : ¬ hidden k)
    (hrange : ∀ origin, r'.range origin = r.range origin)
    (hrange' : ∀ origin, s'.range origin = s.range origin) (hsame : s'.get? k = r'.get? k)
    (hr : ∀ j, j ≠ k → r'.get? j = r.get? j) (hs : ∀ j, j ≠ k → s'.get? j = s.get? j) :
    Overlaid hidden b r' s' where
  rewritten := h.rewritten.edit
    ((hrange' .own).trans (h.rewritten.ownRange.trans (hrange .own).symm))
    ((hrange' .host).trans (h.rewritten.hostRange.trans (hrange .host).symm)) hsame hr hs
  outside {j} hj := by
    by_cases hjk : j = k
    · rw [hjk, hsame]
    · rw [hs j hjk, hr j hjk, h.outside hj]
  inside {j} hj := by
    have hjk : j ≠ k := fun heq => hk (heq ▸ hj)
    rw [hs j hjk, h.inside hj]
  covered {j} hj := by
    have hjk : j ≠ k := fun heq => hk (heq ▸ hj)
    obtain ⟨label, hlabel, hne⟩ := h.covered hj
    refine ⟨label, ?_, hne⟩
    rw [label?, hr j hjk]
    exact hlabel
  proper origin := by
    rw [hrange]
    exact h.proper origin

theorem put (hk : ¬ hidden k) (record : Record) :
    Overlaid hidden b (r.put k record) (s.put k record) :=
  h.edit hk (fun _ => rfl) (fun _ => rfl) (by rw [get?_put_self, get?_put_self])
    (fun _ hj => get?_put_ne _ _ hj) fun _ hj => get?_put_ne _ _ hj

theorem erase (hk : ¬ hidden k) : Overlaid hidden b (r.erase k) (s.erase k) :=
  h.edit hk (fun _ => rfl) (fun _ => rfl) (by simp [get?_erase])
    (fun _ hj => by rw [get?_erase, if_neg hj]) fun _ hj => by rw [get?_erase, if_neg hj]

theorem putAssociation (hk : ¬ hidden k) (changeNumber : UInt16) (a : Association) :
    Overlaid hidden b (r.putAssociation k changeNumber a) (s.putAssociation k changeNumber a) := by
  rw [putAssociation_eq, putAssociation_eq, h.outside hk]
  cases r.get? k with
  | none => exact h
  | some record => exact h.put hk _

theorem dropChild (hk : ¬ hidden k) (header : RecordHeader) (a : Association) (child : Entity) :
    Overlaid hidden b (r.dropChild k header a child) (s.dropChild k header a child) := by
  simp only [Repository.dropChild]
  split_ifs
  · exact h.erase hk
  · exact h.putAssociation hk _ _

theorem association (hk : ¬ hidden k) : s.association k = r.association k := by
  simp only [Repository.association, h.outside hk]

theorem addChild {r' : Repository} {changed : Bool} (hk : ¬ hidden k)
    (hadd : r.addChild k child = .ok (r', changed)) :
    ∃ s', s.addChild k child = .ok (s', changed) ∧ Overlaid hidden b r' s' := by
  obtain ⟨header, a, ha, ⟨hmem, rfl, rfl⟩ | ⟨hmem, hfull, rfl, rfl⟩⟩ := addChild_eq_ok hadd
  · refine ⟨s, ?_, h⟩
    simp only [Repository.addChild, h.association hk, ha, bind, Except.bind, if_pos hmem]
    rfl
  · refine ⟨_, ?_,
      h.putAssociation hk header.changeNumber { a with children := a.children ++ [child] }⟩
    simp only [Repository.addChild, h.association hk, ha, bind, Except.bind, if_neg hmem,
      if_neg hfull]
    rfl

theorem removeChild {r' : Repository} {changed : Bool} (hk : ¬ hidden k)
    (hremove : r.removeChild k child = .ok (r', changed)) :
    ∃ s', s.removeChild k child = .ok (s', changed) ∧ Overlaid hidden b r' s' := by
  obtain ⟨header, a, ha, ⟨hmem, rfl, rfl⟩ | ⟨hmem, rfl, rfl⟩⟩ := removeChild_eq_ok.mp hremove
  · exact ⟨_, removeChild_eq_ok.mpr ⟨header, a, (h.association hk).trans ha, .inl ⟨hmem, rfl, rfl⟩⟩,
      h.dropChild hk header a child⟩
  · exact ⟨s, removeChild_eq_ok.mpr ⟨header, a, (h.association hk).trans ha,
      .inr ⟨hmem, rfl, rfl⟩⟩, h⟩

theorem insert {r' : Repository} {bytes : Bytes} (hinsert : r.insert origin bytes = .ok (r', k)) :
    ¬ hidden k ∧ ∃ s', s.insert origin bytes = .ok (s', k) ∧ Overlaid hidden b r' s' := by
  obtain ⟨header, body, stored, hsplit, hslot, hset, rfl⟩ := insert_eq_ok.mp hinsert
  have hk := h.not_hidden_of_free (slot?_spec origin (h.proper origin) hslot).2
  exact ⟨hk, _,
    insert_eq_ok.mpr ⟨header, body, stored, hsplit, (h.rewritten.slot? _ _).trans hslot, hset, rfl⟩,
    h.put hk _⟩

/-- Listing a child comes to the same, in a record that is not hidden. -/
theorem associate {r' : Repository} {changed : Bool}
    (hassociate : r.associate parent kind child = .ok (r', k, changed)) :
    ¬ hidden k ∧ ∃ s', s.associate parent kind child = .ok (s', k, changed) ∧
      Overlaid hidden b r' s' := by
  rcases associate_eq_ok hassociate with ⟨hfind, hadd⟩ | ⟨hfind, rfl, hcreate⟩
  · have hk : ¬ hidden k := by
      obtain ⟨⟨k', header, a⟩, hmem, rfl⟩ := Option.map_eq_some_iff.mp hfind
      exact h.not_hidden_of_mem (List.mem_of_find?_eq_some hmem)
    obtain ⟨s', hs', hover⟩ := h.addChild hk hadd
    refine ⟨hk, s', ?_, hover⟩
    simp only [Repository.associate, h.rewritten.findAssociation?, hfind, hs', Except.map]
  · obtain ⟨hk, s', hs', hover⟩ := h.insert hcreate
    refine ⟨hk, s', ?_, hover⟩
    change s.createAssociation parent kind child = _ at hs'
    simp only [Repository.associate, h.rewritten.findAssociation?, hfind, hs', Except.map]

theorem stripEdit {entry : RecordHandle × RecordHeader × Association} (hk : ¬ hidden entry.1)
    (e : Entity) :
    Overlaid hidden b (r.stripEdit e entry) (s.stripEdit e entry) := by
  unfold Repository.stripEdit
  split_ifs
  · exact h.erase hk
  · exact h.dropChild hk _ _ _

theorem foldl_stripEdit (e : Entity) {entries : List (RecordHandle × RecordHeader × Association)}
    (hk : ∀ entry ∈ entries, ¬ hidden entry.1) :
    Overlaid hidden b (entries.foldl (Repository.stripEdit e) r)
      (entries.foldl (Repository.stripEdit e) s) := by
  induction entries generalizing r s with
  | nil => exact h
  | cons entry entries ih =>
    have hfirst := h.stripEdit (hk entry List.mem_cons_self) e
    exact ih hfirst fun other hother => hk other (List.mem_cons_of_mem _ hother)

theorem naming (e : Entity) (range : HandleRange) : s.naming e range = r.naming e range := by
  rw [Repository.naming, Repository.naming, h.rewritten.associations]

/-- Stripping an entity comes to the same. -/
theorem strip (e : Entity) (range : HandleRange) :
    Overlaid hidden b (r.strip e range).1 (s.strip e range).1 := by
  rw [strip_eq, strip_eq, h.naming]
  exact h.foldl_stripEdit e fun entry hentry => h.not_hidden_of_mem (mem_naming.mp hentry).1

end Overlaid

end DescriptorExchange.Repository
