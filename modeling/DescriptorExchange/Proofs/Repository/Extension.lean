import DescriptorExchange.Proofs.Repository.Rewriting

/-!
A repository that has grown out of another. Each association record of the base is still there
under its handle with its children first, and the other records of the controller's own are there
whatever has been written into them. Records of the host keep to their own range.
-/
namespace DescriptorExchange.Repository

variable {base r s : Repository} {j k : RecordHandle} {a b : Association} {e parent child : Entity}

structure Extends (base r : Repository) : Prop where
  ownRange : r.ownRange = base.ownRange
  hostRange : r.hostRange = base.hostRange
  tidy : r.Tidy
  placed : ∀ {k record}, r.get? k = some record →
    r.ownRange.contains k = true ∨ r.hostRange.contains k = true
  kept : ∀ {k a}, base.Holds k a → ∃ more, r.Holds k { a with children := a.children ++ more }
  others : ∀ {k label}, base.ownRange.contains k = true → label.1 ≠ .entityAssociation →
    (r.label? k = some label ↔ base.label? k = some label)

theorem Extends.refl (hbase : base.Tidy)
    (hown : ∀ {k record}, base.get? k = some record → base.ownRange.contains k = true) :
    Extends base base where
  ownRange := rfl
  hostRange := rfl
  tidy := hbase
  placed h := .inl (hown h)
  kept {k a} h := ⟨[], by simpa using h⟩
  others _ _ := Iff.rfl

theorem Extends.names (h : Extends base r) (hk : base.Names k parent child) :
    r.Names k parent child := by
  obtain ⟨a, ha, rfl, hmem⟩ := hk
  obtain ⟨more, hmore⟩ := h.kept ha
  exact ⟨_, hmore, rfl, List.mem_append_left _ hmem⟩

theorem Extends.listedAt (h : Extends base r) (hk : base.ListedAt k e) : r.ListedAt k e := by
  obtain ⟨p, hp⟩ := listedAt_iff.mp hk
  exact listedAt_iff.mpr ⟨p, h.names hp⟩

/-- A record keeps its container, so what the base lists in it the base lists under the same one. -/
theorem Extends.names_of_listedAt (h : Extends base r) (hbase : base.ListedAt k child)
    (hr : r.Names k parent child) : base.Names k parent child := by
  obtain ⟨p, hp⟩ := listedAt_iff.mp hbase
  obtain ⟨a, ha, hcontainer, -⟩ := h.names hp
  obtain ⟨b, hb, hcontainer', -⟩ := hr
  obtain rfl := ha.inj hb
  exact hcontainer'.symm.trans hcontainer ▸ hp

/-- An edit of the listings that leaves those of the base in place. -/
theorem Extends.relisted (h : Extends base r) (hrs : Relisted r s)
    (hkept : ∀ {k a more}, base.Holds k a → r.Holds k { a with children := a.children ++ more } →
      ∃ more, s.Holds k { a with children := a.children ++ more }) : Extends base s where
  ownRange := hrs.ownRange.trans h.ownRange
  hostRange := hrs.hostRange.trans h.hostRange
  tidy := hrs.tidy
  placed {k record} hget := by
    rw [hrs.ownRange, hrs.hostRange]
    cases hin : r.ownRange.contains k with
    | true => exact .inl rfl
    | false =>
      have hplaced := h.placed ((hrs.others k record (.inl hin)).mp hget)
      exact .inr (hplaced.resolve_left (by simp [hin]))
  kept ha := by
    obtain ⟨more, hmore⟩ := h.kept ha
    exact hkept ha hmore
  others {k label} hin htype := by
    rw [← h.others hin htype, label?_eq_some, label?_eq_some]
    constructor
    · rintro ⟨record, hget, htype', horigin⟩
      exact ⟨record, (hrs.others k record (.inr (htype' ▸ htype))).mp hget, htype', horigin⟩
    · rintro ⟨record, hget, htype', horigin⟩
      exact ⟨record, (hrs.others k record (.inr (htype' ▸ htype))).mpr hget, htype', horigin⟩

/-- A change outside the controller's own range. -/
theorem Extends.of_own (h : Extends base r) (hown : s.ownRange = r.ownRange)
    (hhost : s.hostRange = r.hostRange)
    (hget : ∀ k, r.ownRange.contains k = true → s.get? k = r.get? k)
    (hplaced : ∀ {k record}, s.get? k = some record →
      s.ownRange.contains k = true ∨ s.hostRange.contains k = true) : Extends base s where
  ownRange := hown.trans h.ownRange
  hostRange := hhost.trans h.hostRange
  tidy k record hk hin htype := by
    rw [hown] at hin
    rw [hget k hin] at hk
    obtain ⟨a, ha⟩ := h.tidy k record hk hin htype
    exact ⟨a, ha.congr hown (hget k hin)⟩
  placed := hplaced
  kept ha := by
    obtain ⟨more, hmore⟩ := h.kept ha
    exact ⟨more, hmore.congr hown (hget _ hmore.own)⟩
  others {k label} hin htype := by
    rw [← h.others hin htype, label?, label?, hget k (h.ownRange ▸ hin)]

/-- What is listed depends on the records of the controller's own range only. -/
theorem Holds.iff_of_own (hown : s.ownRange = r.ownRange)
    (hget : ∀ k, r.ownRange.contains k = true → s.get? k = r.get? k) : s.Holds k a ↔ r.Holds k a :=
  ⟨fun h => h.congr hown.symm (hget k (hown ▸ h.own)).symm, fun h => h.congr hown (hget k h.own)⟩

theorem Extends.rewritten (h : Extends base r) (hrs : Rewritten r s) : Extends base s where
  ownRange := hrs.ownRange.trans h.ownRange
  hostRange := hrs.hostRange.trans h.hostRange
  tidy k record hget hin htype := by
    obtain ⟨a, ha⟩ := h.tidy k record ((hrs.kept htype).mp hget) (hrs.ownRange ▸ hin) htype
    exact ⟨a, hrs.holds.mpr ha⟩
  placed {k record} hget := by
    obtain ⟨old, hold, -⟩ := label?_eq_some.mp
      ((hrs.label k).symm.trans (label?_of_get? hget))
    rw [hrs.ownRange, hrs.hostRange]
    exact h.placed hold
  kept ha := (h.kept ha).imp fun _ => hrs.holds.mpr
  others hin htype := by rw [hrs.label, h.others hin htype]

/-- Under a handle that carries no other record of the base, a record of the controller's own is a
listing. -/
theorem Extends.holds_of_get? (h : Extends base r) (hin : base.ownRange.contains k = true)
    (hbase : ∀ label, base.label? k = some label → label.1 = .entityAssociation) {record : Record}
    (hget : r.get? k = some record) : ∃ a, r.Holds k a := by
  apply h.tidy k record hget (h.ownRange ▸ hin)
  by_contra htype
  exact htype (hbase _ ((h.others hin htype).mp (label?_of_get? hget)))

theorem Extends.associate {kind : UInt8} {changed : Bool} (h : Extends base r)
    (hrange : base.ownRange.first ≤ base.ownRange.last)
    (hassociate : r.associate parent kind child = .ok (s, k, changed)) : Extends base s := by
  obtain ⟨hrs, b, hb, -, -, -, -, -, hholds⟩ :=
    associate_relisted h.tidy (h.ownRange ▸ hrange) hassociate
  apply h.relisted hrs
  intro j a more _ ha
  by_cases hjk : j = k
  · subst hjk
    rcases hb with hb | ⟨ha', -, rfl⟩ | ⟨hfree, -⟩
    · exact ⟨more, (hholds _ _).mpr (by rw [if_pos rfl]; exact ha.inj hb)⟩
    · obtain rfl := ha.inj ha'
      exact ⟨more ++ [child], (hholds _ _).mpr (by simp [Association.adding])⟩
    · simp [ha.get] at hfree
  · exact ⟨more, (hholds _ _).mpr (by rw [if_neg hjk]; exact ha)⟩

/-- Taking out a child that the base does not list there. -/
theorem Extends.trim (h : Extends base r) (hrs : Relisted r s) (hbase : ¬ base.ListedAt k e)
    (hholds : ∀ j b, s.Holds j b ↔ ∃ a, r.Holds j a ∧
    (if j = k then a.trim? e else some a) = some b) :
    Extends base s := by
  apply h.relisted hrs
  intro j a more ha hmore
  by_cases hjk : j = k
  · subst hjk
    have he : e ∉ a.children := fun he => hbase ⟨a, ha, he⟩
    exact ⟨_, (hholds j _).mpr ⟨_, hmore, by rw [if_pos rfl, ha.proper.trim?_append he]⟩⟩
  · exact ⟨more, (hholds j _).mpr ⟨_, hmore, if_neg hjk⟩⟩

/-- Stripping an entity that no record of the base names. -/
theorem Extends.strip (h : Extends base r)
    (hbase : ∀ {k a}, base.Holds k a → a.container ≠ e ∧ e ∉ a.children) :
    Extends base (r.strip e r.ownRange).1 := by
  obtain ⟨hrs, hholds⟩ := strip_relisted h.tidy e
  apply h.relisted hrs
  intro j a more ha hmore
  obtain ⟨hcontainer, he⟩ := hbase ha
  exact ⟨_, (hholds j _).mpr
    ⟨_, hmore, by rw [Association.strip?, if_neg hcontainer, ha.proper.trim?_append he]⟩⟩

section removeRange

variable (h : Extends base r) (hranges : base.ownRange.Apart base.hostRange)
include h hranges

/-- Clearing the range of the host leaves the controller's own range alone, and nothing else. -/
theorem Extends.get?_removeRange (k : RecordHandle) : (r.removeRange base.hostRange).1.get? k =
    if base.ownRange.contains k then r.get? k else none := by
  rw [Repository.get?_removeRange]
  cases hown : base.ownRange.contains k with
  | true => simp [HandleRange.not_contains_of_apart hranges.disjoint hown]
  | false =>
    cases hget : r.get? k with
    | none => simp
    | some record =>
      have hhost := (h.placed hget).resolve_left (by simp [h.ownRange, hown])
      simp [← h.hostRange, hhost]

theorem Extends.removeRange : Extends base (r.removeRange base.hostRange).1 := by
  have hget (k : RecordHandle) := h.get?_removeRange hranges k
  refine h.of_own (removeRange_ownRange ..) (removeRange_hostRange ..) (fun k hk => ?_)
    fun {k record} hk => ?_
  · rw [hget, if_pos (h.ownRange ▸ hk)]
  · rw [hget] at hk
    split_ifs at hk with hin
    exact .inl (by rwa [removeRange_ownRange, h.ownRange])

theorem Extends.holds_removeRange : (r.removeRange base.hostRange).1.Holds k a ↔ r.Holds k a := by
  apply Holds.iff_of_own (removeRange_ownRange ..)
  intro k hk
  rw [h.get?_removeRange hranges, if_pos (h.ownRange ▸ hk)]

end removeRange

end DescriptorExchange.Repository
