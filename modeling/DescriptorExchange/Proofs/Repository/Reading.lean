import DescriptorExchange.Proofs.Repository.Lengths

/-!
What the controller's own association records read as, whoever has written them and under whatever
change numbers. The repository edits such records one at a time, decoding them and encoding them
again. For each edit there is a statement here of what all of the records read as afterwards.
-/
namespace DescriptorExchange

namespace Association

/-- What is left of an association when some entities are gone altogether and others are no longer
among its children: nothing, if the container is gone or all of the children. -/
def prune? (gone taken : List Entity) (a : Association) : Option Association :=
  let left := a.children.filter fun c => c ∉ gone ∧ c ∉ taken
  if a.container ∈ gone ∨ left = [] ∧ a.children ≠ [] then none else some { a with children := left }

variable {a b : Association} {gone taken gone' taken' : List Entity} {c e : Entity}

theorem prune?_eq_some : a.prune? gone taken = some b ↔ a.container ∉ gone ∧
    (a.children ≠ [] → b.children ≠ []) ∧
    b = { a with children := a.children.filter fun c => c ∉ gone ∧ c ∉ taken } := by
  unfold prune?
  dsimp only
  split_ifs with hlost
  · refine iff_of_false (by simp) ?_
    rintro ⟨hkept, hleft, rfl⟩
    rcases hlost with hgone | ⟨hnone, hsome⟩
    · exact hkept hgone
    · exact hleft hsome hnone
  · obtain ⟨hkept, hleft⟩ := not_or.mp hlost
    constructor
    · intro h
      obtain rfl := Option.some.inj h
      exact ⟨hkept, fun hsome hnone => hleft ⟨hnone, hsome⟩, rfl⟩
    · rintro ⟨-, -, rfl⟩
      rfl

theorem prune?_of_spared (hcontainer : a.container ∉ gone)
    (hchildren : ∀ c ∈ a.children, c ∉ gone ∧ c ∉ taken) : a.prune? gone taken = some a := by
  have hfilter : (a.children.filter fun c => c ∉ gone ∧ c ∉ taken) = a.children :=
    List.filter_eq_self.mpr fun c hc => by simpa using hchildren c hc
  exact prune?_eq_some.mpr ⟨hcontainer, id, by rw [hfilter]⟩

/-- Where nothing goes an association stays as it is. -/
@[simp] theorem prune?_nil : prune? [] [] = some :=
  funext fun _ => prune?_of_spared (by simp) (by simp)

theorem prune?_eq_self : a.prune? gone taken = some a ↔
    a.container ∉ gone ∧ ∀ c ∈ a.children, c ∉ gone ∧ c ∉ taken := by
  refine ⟨fun h => ?_, fun h => prune?_of_spared h.1 h.2⟩
  obtain ⟨hcontainer, -, heq⟩ := prune?_eq_some.mp h
  refine ⟨hcontainer, fun c hc => ?_⟩
  rw [heq] at hc
  simpa using (List.mem_filter.mp hc).2

/-- Of what is gone altogether it does not matter whether it is taken out of the children. -/
theorem prune?_of_subset (h : taken ⊆ gone) : a.prune? gone taken = a.prune? gone [] := by
  have hfilter : (a.children.filter fun c => c ∉ gone ∧ c ∉ taken) =
      a.children.filter fun c => c ∉ gone ∧ c ∉ ([] : List Entity) :=
    List.filter_congr fun c _ => by
      have := @h c
      grind
  unfold prune?
  rw [hfilter]

theorem mem_of_prune? (h : a.prune? gone taken = some b) :
    c ∈ b.children ↔ c ∈ a.children ∧ c ∉ gone ∧ c ∉ taken := by
  obtain ⟨-, -, rfl⟩ := prune?_eq_some.mp h
  simp

theorem within_of_prune? (h : a.prune? gone taken = some b) : b.Within a := by
  obtain ⟨-, -, rfl⟩ := prune?_eq_some.mp h
  exact ⟨List.filter_sublist, rfl⟩

/-- Pruning twice comes to pruning once. -/
theorem prune?_bind (a : Association) (gone taken gone' taken' : List Entity) :
    (a.prune? gone taken).bind (prune? gone' taken') = a.prune? (gone ++ gone') (taken ++ taken') := by
  have hfilter : ((a.children.filter fun c => c ∉ gone ∧ c ∉ taken).filter
      fun c => c ∉ gone' ∧ c ∉ taken') =
      a.children.filter fun c => c ∉ gone ++ gone' ∧ c ∉ taken ++ taken' := by
    rw [List.filter_filter]
    refine List.filter_congr fun c _ => ?_
    simp only [List.mem_append, not_or]
    grind
  refine Option.ext fun b => ?_
  rw [Option.bind_eq_some_iff, prune?_eq_some, ← hfilter]
  simp only [prune?_eq_some, List.mem_append, not_or]
  constructor
  · rintro ⟨_, ⟨hcontainer, hleft, rfl⟩, hcontainer', hleft', rfl⟩
    exact ⟨⟨hcontainer, hcontainer'⟩, fun hsome => hleft' (hleft hsome), rfl⟩
  · rintro ⟨⟨hcontainer, hcontainer'⟩, hleft, rfl⟩
    refine ⟨_, ⟨hcontainer, fun hsome hnone => hleft hsome ?_, rfl⟩, hcontainer', fun hsome => ?_, rfl⟩
    · exact (congrArg (List.filter _) hnone).trans List.filter_nil
    · exact hleft fun hnone => hsome ((congrArg (List.filter _) hnone).trans List.filter_nil)

end Association

namespace Repository

variable {r s : Repository} {j k : RecordHandle} {a b : Association} {parent child c e : Entity}
  {kind : UInt8} {changed : Bool}

/-- What the controller's own association record under a handle reads as. -/
def reading? (r : Repository) (k : RecordHandle) : Option Association := do
  let record ← r.get? k
  if r.ownRange.contains k ∧ record.type = .entityAssociation then
    let (_, a) ← (decodeRecord Association record.bytes).toOption
    return a
  else none

theorem reading?_eq_some : r.reading? k = some a ↔ ∃ record header, r.get? k = some record ∧
    r.ownRange.contains k = true ∧ record.type = .entityAssociation ∧
    decodeRecord Association record.bytes = .ok (header, a) := by
  simp only [reading?, Option.bind_eq_bind, Option.bind_eq_some_iff]
  constructor
  · rintro ⟨record, hget, hread⟩
    split_ifs at hread with hown
    obtain ⟨⟨header, a'⟩, hdecode, hread⟩ := Option.bind_eq_some_iff.mp hread
    obtain rfl : a' = a := Option.some.inj hread
    exact ⟨record, header, hget, hown.1, hown.2, toOption_eq_some.mp hdecode⟩
  · rintro ⟨record, header, hget, hin, htype, hdecode⟩
    exact ⟨record, hget, by simp [hin, htype, toOption_eq_some.mpr hdecode]⟩

theorem reading?_congr (hrange : s.ownRange = r.ownRange) (hget : s.get? k = r.get? k) :
    s.reading? k = r.reading? k := by
  rw [reading?, reading?, hrange, hget]

theorem reading?_of_get?_none (h : r.get? k = none) : r.reading? k = none := by
  rw [reading?, h]
  rfl

theorem reading?_iff_mem :
    r.reading? k = some a ↔ ∃ header, (k, header, a) ∈ r.associations r.ownRange := by
  simp only [reading?_eq_some, mem_associations]
  exact exists_comm

theorem association_of_reading (h : r.reading? k = some a) :
    ∃ header, r.association k = .ok (header, a) := by
  obtain ⟨record, header, hget, -, -, hdecode⟩ := reading?_eq_some.mp h
  exact ⟨header, by simp only [association, hget, hdecode, Except.mapError]⟩

theorem reading?_of_association {header : RecordHeader} {record : Record}
    (h : r.association k = .ok (header, a)) (hget : r.get? k = some record)
    (hin : r.ownRange.contains k = true) (htype : record.type = .entityAssociation) :
    r.reading? k = some a := by
  simp only [association, hget] at h
  cases hdecode : decodeRecord Association record.bytes with
  | error cause => simp [hdecode, Except.mapError] at h
  | ok found =>
    obtain rfl : found = (header, a) := by simpa [hdecode, Except.mapError] using h
    exact reading?_eq_some.mpr ⟨record, header, hget, hin, htype, hdecode⟩

theorem length_children_of_reading (h : r.reading? k = some a) :
    a.children.length ≤ Association.maxChildren := by
  obtain ⟨record, header, -, -, -, hdecode⟩ := reading?_eq_some.mp h
  exact Association.length_children_of_decode hdecode

section search

/-- The record found for a container and a kind is the first one that reads so. -/
theorem findAssociation?_reading : r.findAssociation? parent kind r.ownRange = some k ↔
    (∃ a, r.reading? k = some a ∧ a.container = parent ∧ a.kind = kind) ∧
      ∀ j b, r.reading? j = some b → b.container = parent → b.kind = kind → k ≤ j := by
  simp only [findAssociation?_eq_some_iff, reading?_iff_mem]
  constructor
  · rintro ⟨⟨header, a, hmem, hnamed⟩, hmin⟩
    refine ⟨⟨a, ⟨header, hmem⟩, hnamed⟩, ?_⟩
    rintro j b ⟨header', hmem'⟩
    exact hmin j header' b hmem'
  · rintro ⟨⟨a, ⟨header, hmem⟩, hnamed⟩, hmin⟩
    exact ⟨⟨header, a, hmem, hnamed⟩, fun j header' b hmem' => hmin j b ⟨header', hmem'⟩⟩

theorem findAssociation?_reading_none : r.findAssociation? parent kind r.ownRange = none ↔
    ∀ j b, r.reading? j = some b → ¬ (b.container = parent ∧ b.kind = kind) := by
  simp only [findAssociation?, Option.map_eq_none_iff, List.find?_eq_none, Bool.and_eq_true,
    decide_eq_true_eq, reading?_iff_mem]
  constructor
  · rintro h j b ⟨header, hmem⟩
    exact h _ hmem
  · rintro h ⟨j, header, b⟩ hmem
    exact h j b ⟨header, hmem⟩

end search

section removal

/-- Another association written in place of one that can be read. -/
theorem reading?_putAssociation (ha : r.reading? k = some a)
    (hlen : b.children.length ≤ Association.maxChildren) (changeNumber : UInt16) (j : RecordHandle) :
    (r.putAssociation k changeNumber b).reading? j = if j = k then some b else r.reading? j := by
  split_ifs with hj
  · subst hj
    obtain ⟨record, header, hget, hin, htype, -⟩ := reading?_eq_some.mp ha
    have hput : r.putAssociation j changeNumber b =
        r.put j { record with bytes := encodeRecordAs j changeNumber b } := by
      simp only [putAssociation_eq, hget]
    rw [hput]
    exact reading?_eq_some.mpr ⟨_, _, get?_put_self .., hin, htype,
      Association.decodeRecord_encodeRecordAs hlen j changeNumber⟩
  · exact reading?_congr (putAssociation_ownRange ..) (get?_putAssociation_ne _ _ hj)

theorem reading?_erase (r : Repository) (k j : RecordHandle) :
    (r.erase k).reading? j = if j = k then none else r.reading? j := by
  split_ifs with hj
  · exact reading?_of_get?_none (by rw [get?_erase, if_pos hj])
  · exact reading?_congr rfl (by rw [get?_erase, if_neg hj])

/-- A record that is left is of the type it was. -/
theorem type_of_dropChild {header : RecordHeader} {record : Record}
    (h : (r.dropChild k header a c).get? j = some record) :
    ∃ old, r.get? j = some old ∧ record.type = old.type := by
  by_cases hj : j = k
  · subst hj
    rw [dropChild] at h
    split_ifs at h
    · simp [get?_erase] at h
    · rw [putAssociation_eq] at h
      cases hget : r.get? j with
      | none => simp [hget] at h
      | some old =>
        simp only [hget, get?_put_self, Option.some.injEq] at h
        subst h
        exact ⟨old, rfl, rfl⟩
  · rw [get?_dropChild_ne _ _ _ hj] at h
    exact ⟨record, h, rfl⟩

/-- Dropping one of the children. -/
theorem reading?_dropChild (ha : r.reading? k = some a) (header : RecordHeader)
    (hc : c ∈ a.children) (j : RecordHandle) : (r.dropChild k header a c).reading? j =
      if j = k then a.prune? [] [c] else r.reading? j := by
  have hsome : a.children ≠ [] := List.ne_nil_of_mem hc
  have hprune : a.prune? [] [c] = if a.children.filter (· ≠ c) = [] then none
      else some { a with children := a.children.filter (· ≠ c) } := by
    simp [Association.prune?, hsome]
  rw [hprune, dropChild]
  by_cases hnone : a.children.filter (· ≠ c) = []
  · simp only [hnone, List.isEmpty_nil, if_true]
    exact reading?_erase r k j
  · rw [if_neg (by simpa using hnone), if_neg hnone]
    have hfits := (List.length_filter_le (· ≠ c) a.children).trans (length_children_of_reading ha)
    exact reading?_putAssociation ha hfits header.changeNumber j

/-- Taking a child out of a record that can be read does not fail. -/
theorem removeChild_reading (ha : r.reading? k = some a) (c : Entity) :
    ∃ s, r.removeChild k c = .ok (s, c ∈ a.children) := by
  obtain ⟨header, hread⟩ := association_of_reading ha
  by_cases hc : c ∈ a.children
  · exact ⟨_, removeChild_eq_ok.mpr ⟨header, a, hread, .inl ⟨hc, rfl, decide_eq_true hc⟩⟩⟩
  · exact ⟨r, removeChild_eq_ok.mpr ⟨header, a, hread, .inr ⟨hc, rfl, decide_eq_false hc⟩⟩⟩

/-- Taking a child out of a record prunes this one record of it. -/
theorem reading?_of_removeChild (h : r.removeChild k c = .ok (s, changed)) (j : RecordHandle) :
    s.reading? j = (r.reading? j).bind (Association.prune? [] (if j = k then [c] else [])) := by
  have hspared {a : Association} (hc : c ∉ a.children) : a.prune? [] [c] = some a :=
    Association.prune?_of_spared (by simp) fun d hd => by simpa using fun h : d = c => hc (h ▸ hd)
  obtain ⟨header, a, hread, hcases⟩ := removeChild_eq_ok.mp h
  have hown : s.ownRange = r.ownRange := by
    rcases hcases with ⟨-, rfl, -⟩ | ⟨-, rfl, -⟩
    · exact dropChild_ownRange ..
    · rfl
  by_cases hj : j = k
  · subst hj
    rw [if_pos rfl]
    cases ha : r.reading? j with
    | none =>
      -- what is not an association record of the controller's own does not become one
      refine Option.eq_none_iff_forall_ne_some.mpr fun b hb => ?_
      obtain ⟨record, _, hget, hin, htype, -⟩ := reading?_eq_some.mp hb
      obtain ⟨old, hold, htype'⟩ : ∃ old, r.get? j = some old ∧ record.type = old.type := by
        rcases hcases with ⟨-, rfl, -⟩ | ⟨-, rfl, -⟩
        · exact type_of_dropChild hget
        · exact ⟨record, hget, rfl⟩
      have hsome := reading?_of_association hread hold (hown ▸ hin) (htype'.symm.trans htype)
      simp [ha] at hsome
    | some a' =>
      obtain ⟨header', hread'⟩ := association_of_reading ha
      obtain ⟨rfl, rfl⟩ := Prod.mk.inj (Except.ok.inj (hread'.symm.trans hread))
      rcases hcases with ⟨hc, rfl, -⟩ | ⟨hc, rfl, -⟩
      · rw [reading?_dropChild ha header' hc, if_pos rfl, Option.bind_some]
      · rw [ha, Option.bind_some, hspared hc]
  · rw [if_neg hj, Association.prune?_nil, Option.bind_fun_some]
    exact reading?_congr hown (get?_of_removeChild h fun _ => hj)

/-- The records that name an entity, as they read. -/
theorem mem_naming_handles : k ∈ (r.naming e r.ownRange).map Prod.fst ↔
    ∃ a, r.reading? k = some a ∧ (a.container = e ∨ e ∈ a.children) := by
  simp only [List.mem_map, mem_naming, Prod.exists, reading?_iff_mem]
  constructor
  · rintro ⟨j, header, a, ⟨hmem, hhit⟩, rfl⟩
    exact ⟨a, ⟨header, hmem⟩, hhit⟩
  · rintro ⟨a, ⟨header, hmem⟩, hhit⟩
    exact ⟨k, header, a, ⟨hmem, hhit⟩, rfl⟩

/-- Stripping an entity prunes each record of it. -/
theorem reading?_strip (r : Repository) (e : Entity) (k : RecordHandle) :
    (r.strip e r.ownRange).1.reading? k =
      (r.reading? k).bind (Association.prune? [e] []) := by
  by_cases hk : k ∈ (r.naming e r.ownRange).map Prod.fst
  · obtain ⟨⟨k, header, a⟩, hentry, rfl⟩ := List.mem_map.mp hk
    obtain ⟨hmem, hhit⟩ := mem_naming.mp hentry
    have ha := reading?_iff_mem.mpr ⟨header, hmem⟩
    have hedit : (r.strip e r.ownRange).1.reading? k = (stripEdit e r (k, header, a)).reading? k :=
      reading?_congr (by simp) (get?_strip_of_mem hentry)
    rw [hedit, ha, Option.bind_some, stripEdit]
    split_ifs with hcontainer
    · rw [reading?_erase, if_pos rfl, Association.prune?, if_pos (.inl (by simpa using hcontainer))]
    · rw [reading?_dropChild ha header (hhit.resolve_left hcontainer), if_pos rfl]
      simp [Association.prune?, hcontainer]
  · rw [reading?_congr (strip_ownRange ..) (get?_strip_of_not_mem e _ hk)]
    cases ha : r.reading? k with
    | none => rfl
    | some a =>
      have hspared : ¬ (a.container = e ∨ e ∈ a.children) := fun hhit =>
        hk (mem_naming_handles.mpr ⟨a, ha, hhit⟩)
      rw [not_or] at hspared
      rw [Option.bind_some, Association.prune?_of_spared (by simpa using hspared.1)]
      intro c hc
      simpa using fun h : c = e => hspared.2 (h ▸ hc)

end removal

section listing

/-- Listing a child in the record of a parent and a kind: it is listed there already, or the record
that is found gets it appended, or there is a new record. -/
theorem associate_reading (hrange : r.ownRange.first ≤ r.ownRange.last)
    (h : r.associate parent kind child = .ok (s, k, changed)) :
    (∃ a, r.reading? k = some a ∧ a.container = parent ∧ a.kind = kind ∧ child ∈ a.children ∧
      changed = false ∧ s = r) ∨
    (changed = true ∧ s.ownRange = r.ownRange ∧ (∀ j, j ≠ k → s.get? j = r.get? j) ∧ ∃ b,
      (∀ j, s.reading? j = if j = k then some b else r.reading? j) ∧
      ((∃ a, r.reading? k = some a ∧ a.container = parent ∧ a.kind = kind ∧ child ∉ a.children ∧
        b = a.adding child) ∨
      ((∀ j a, r.reading? j = some a → ¬ (a.container = parent ∧ a.kind = kind)) ∧
        r.get? k = none ∧ b = ⟨child.container, kind, parent, [child]⟩))) := by
  rcases associate_eq_ok h with ⟨hfind, hadd⟩ | ⟨hfind, rfl, hnew⟩
  · obtain ⟨⟨a, ha, hparent, hkind⟩, -⟩ := findAssociation?_reading.mp hfind
    obtain ⟨header, a', hread, hcases⟩ := addChild_eq_ok hadd
    obtain ⟨header', hread'⟩ := association_of_reading ha
    obtain ⟨rfl, rfl⟩ := Prod.mk.inj (Except.ok.inj (hread'.symm.trans hread))
    rcases hcases with ⟨hmem, rfl, rfl⟩ | ⟨hmem, hroom, rfl, rfl⟩
    · exact .inl ⟨a, ha, hparent, hkind, hmem, rfl, rfl⟩
    · have hlen := length_children_of_reading ha
      have hfits : (a.adding child).children.length ≤ Association.maxChildren := by
        simp only [Association.adding, List.length_append, List.length_singleton]
        omega
      exact .inr ⟨rfl, putAssociation_ownRange .., fun j hj => get?_putAssociation_ne _ _ hj,
        a.adding child, reading?_putAssociation ha hfits _, .inl ⟨a, ha, hparent, hkind, hmem, rfl⟩⟩
  · obtain ⟨hin, hfree, rfl⟩ := createAssociation_eq_ok hrange hnew
    refine .inr ⟨rfl, rfl, fun j hj => get?_put_ne _ _ hj, _, fun j => ?_,
      .inr ⟨findAssociation?_reading_none.mp hfind, hfree, rfl⟩⟩
    split_ifs with hj
    · subst hj
      have hproper := Association.proper_single child.container kind parent child
      exact reading?_eq_some.mpr ⟨_, _, get?_put_self .., hin, rfl, decodeRecord_listing hproper⟩
    · exact reading?_congr rfl (get?_put_ne _ _ hj)

/-- The record a child has been listed in is the one found for its parent and kind from then on. -/
theorem findAssociation?_associate_reading (hrange : r.ownRange.first ≤ r.ownRange.last)
    (h : r.associate parent kind child = .ok (s, k, changed)) :
    s.findAssociation? parent kind s.ownRange = some k ∧
      ∀ j, r.findAssociation? parent kind r.ownRange = some j → j = k := by
  have hfind : ∀ j, r.findAssociation? parent kind r.ownRange = some j → j = k := by
    intro j hj
    rcases associate_eq_ok h with ⟨hk, -⟩ | ⟨hnone, -⟩
    · exact Option.some.inj (hj.symm.trans hk)
    · simp [hnone] at hj
  refine ⟨?_, hfind⟩
  rcases associate_reading hrange h with ⟨a, ha, hparent, hkind, -, -, rfl⟩ |
    ⟨-, -, -, b, hread, hplace⟩
  · obtain ⟨j, hj⟩ := Option.ne_none_iff_exists'.mp fun hnone =>
      findAssociation?_reading_none.mp hnone k a ha ⟨hparent, hkind⟩
    rw [hj, hfind j hj]
  · have hb : s.reading? k = some b := by rw [hread, if_pos rfl]
    have hfirst {j : RecordHandle} {d : Association} (hd : s.reading? j = some d)
        (hj : j ≠ k → r.reading? j = some d → k ≤ j) : k ≤ j := by
      rw [hread] at hd
      split_ifs at hd with hjk
      · exact UInt32.le_of_eq hjk.symm
      · exact hj hjk hd
    rcases hplace with ⟨a, ha, hparent, hkind, -, rfl⟩ | ⟨hnone, -, rfl⟩
    · obtain ⟨j, hj⟩ := Option.ne_none_iff_exists'.mp fun hnone =>
        findAssociation?_reading_none.mp hnone k a ha ⟨hparent, hkind⟩
      obtain rfl := hfind j hj
      have hmin := (findAssociation?_reading.mp hj).2
      refine findAssociation?_reading.mpr ⟨⟨_, hb, hparent, hkind⟩, fun i d hd hparent' hkind' => ?_⟩
      exact hfirst hd fun _ hd => hmin i d hd hparent' hkind'
    · refine findAssociation?_reading.mpr ⟨⟨_, hb, rfl, rfl⟩, fun i d hd hparent' hkind' => ?_⟩
      exact hfirst hd fun _ hd => absurd ⟨hparent', hkind'⟩ (hnone i d hd)

end listing

end Repository
end DescriptorExchange
