import DescriptorExchange.Proofs.Repository.Filing
import DescriptorExchange.Proofs.Repository.Legible
import DescriptorExchange.Proofs.Repository.Reading

/-!
The controller's own association records as a relation: which child is listed under which container in
which kind of association. Where every record can be read, has a container and a kind of its own, and
lists some children and none twice, it stays so, and each edit of the records is an edit of the
relation.
-/
namespace DescriptorExchange.Repository

variable {r s : Repository} {j k : RecordHandle} {a b : Association} {parent child c e : Entity}
  {kind : UInt8} {changed : Bool}

/-- The controller's own association records can all be read. No two of them have the same container
and kind, and each of them lists some children, none of them twice. -/
structure Regular (r : Repository) : Prop where
  readable : ∀ {k record}, r.get? k = some record → r.ownRange.contains k = true →
    record.type = .entityAssociation → ∃ found, decodeRecord Association record.bytes = .ok found
  distinct : ∀ {j k a b}, r.reading? j = some a → r.reading? k = some b →
    a.container = b.container → a.kind = b.kind → j = k
  nonempty : ∀ {k a}, r.reading? k = some a → a.children ≠ []
  nodup : ∀ {k a}, r.reading? k = some a → a.children.Nodup

/-- What the records list: containers, kinds of association and children. -/
def listings (r : Repository) : Set (Entity × UInt8 × Entity) :=
  {l | ∃ k a, r.reading? k = some a ∧ a.container = l.1 ∧ a.kind = l.2.1 ∧ l.2.2 ∈ a.children}

/-- A record that is there before and after is that of the same container and kind, and the children
it has kept are in the order they were in. -/
def Steady (r s : Repository) : Prop :=
  ∀ k a b, r.reading? k = some a → s.reading? k = some b → b.container = a.container ∧
    b.kind = a.kind ∧ a.children.filter (· ∈ b.children) = b.children.filter (· ∈ a.children)

/-- The edits of association records that are made by container, kind and entity. -/
def Edit.Relists (own : HandleRange) : Edit → Prop
  | .associate .. => True
  | .removeChild .. => True
  | .strip _ range => range = own
  | _ => False

theorem mem_listings : (parent, kind, child) ∈ r.listings ↔
    ∃ k a, r.reading? k = some a ∧ a.container = parent ∧ a.kind = kind ∧ child ∈ a.children :=
  Iff.rfl

theorem Steady.refl (r : Repository) : r.Steady r := by
  intro k a b ha hb
  obtain rfl := Option.some.inj (ha.symm.trans hb)
  exact ⟨rfl, rfl, rfl⟩

/-- Records stay readable where no other record becomes an association record. -/
theorem Regular.readable_of (hr : r.Regular) (hown : s.ownRange = r.ownRange)
    (hlegible : ∀ k, r.Legible k → s.Legible k)
    (htype : ∀ k record old, s.get? k = some record → r.get? k = some old →
      record.type = old.type) {record : Record} (hget : s.get? k = some record)
    (hin : s.ownRange.contains k = true) (hassociation : record.type = .entityAssociation) :
    ∃ found, decodeRecord Association record.bytes = .ok found := by
  have hk : r.Legible k := by
    intro old hold
    have hold' := (htype k record old hget hold).symm.trans hassociation
    exact ⟨hold', hr.readable hold (hown ▸ hin) hold'⟩
  exact (hlegible k hk record hget).2

section pruning

variable {gone taken : RecordHandle → List Entity}
  (hread : ∀ k, s.reading? k = (r.reading? k).bind (Association.prune? (gone k) (taken k)))
include hread

theorem reading?_of_pruned (hb : s.reading? k = some b) :
    ∃ a, r.reading? k = some a ∧ a.prune? (gone k) (taken k) = some b := by
  rw [hread] at hb
  exact Option.bind_eq_some_iff.mp hb

theorem mem_listings_of_pruned : (parent, kind, child) ∈ s.listings ↔
    ∃ k a, r.reading? k = some a ∧ a.container = parent ∧ a.kind = kind ∧ child ∈ a.children ∧
      parent ∉ gone k ∧ child ∉ gone k ∧ child ∉ taken k := by
  rw [mem_listings]
  constructor
  · rintro ⟨k, b, hb, hparent, hkind, hchild⟩
    obtain ⟨a, ha, hprune⟩ := reading?_of_pruned hread hb
    obtain ⟨hkept, -, rfl⟩ := Association.prune?_eq_some.mp hprune
    obtain ⟨hchild, hgone, htaken⟩ := (Association.mem_of_prune? hprune).mp hchild
    exact ⟨k, a, ha, hparent, hkind, hchild, hparent ▸ hkept, hgone, htaken⟩
  · rintro ⟨k, a, ha, rfl, rfl, hchild, hparent, hgone, htaken⟩
    have hleft : child ∈ a.children.filter fun c => c ∉ gone k ∧ c ∉ taken k := by
      simp [hchild, hgone, htaken]
    have hprune := Association.prune?_eq_some.mpr
      ⟨hparent, fun _ => List.ne_nil_of_mem hleft, rfl⟩
    have hb := (hread k).trans (by rw [ha, Option.bind_some, hprune])
    exact ⟨k, _, hb, rfl, rfl, hleft⟩

theorem steady_of_pruned : r.Steady s := by
  intro k a b ha hb
  obtain ⟨a', ha', hprune⟩ := reading?_of_pruned hread hb
  obtain rfl := Option.some.inj (ha.symm.trans ha')
  obtain ⟨-, -, rfl⟩ := Association.prune?_eq_some.mp hprune
  refine ⟨rfl, rfl, ?_⟩
  dsimp only
  rw [List.filter_filter]
  refine List.filter_congr fun c hc => ?_
  simp [hc]

/-- Losing children, a repository stays regular. -/
theorem Regular.of_pruned (hr : r.Regular) (hown : s.ownRange = r.ownRange)
    (hlegible : ∀ k, r.Legible k → s.Legible k)
    (htype : ∀ k record old, s.get? k = some record → r.get? k = some old →
      record.type = old.type) : s.Regular where
  readable hget hin := hr.readable_of hown hlegible htype hget hin
  distinct ha hb hcontainer hkind := by
    obtain ⟨a', ha', hprune⟩ := reading?_of_pruned hread ha
    obtain ⟨b', hb', hprune'⟩ := reading?_of_pruned hread hb
    obtain ⟨-, -, rfl⟩ := Association.prune?_eq_some.mp hprune
    obtain ⟨-, -, rfl⟩ := Association.prune?_eq_some.mp hprune'
    exact hr.distinct ha' hb' hcontainer hkind
  nonempty hb := by
    obtain ⟨a, ha, hprune⟩ := reading?_of_pruned hread hb
    exact (Association.prune?_eq_some.mp hprune).2.1 (hr.nonempty ha)
  nodup hb := by
    obtain ⟨a, ha, hprune⟩ := reading?_of_pruned hread hb
    exact (hr.nodup ha).sublist (Association.within_of_prune? hprune).1

end pruning

/-- Records under some handles have been edited, and the relation is now another one. -/
structure Amended (r s : Repository) (handles : Set RecordHandle)
    (listings : Set (Entity × UInt8 × Entity)) : Prop where
  regular : s.Regular
  ownRange : s.ownRange = r.ownRange
  listings : s.listings = listings
  steady : r.Steady s
  others : ∀ k, k ∉ handles → s.get? k = r.get? k

section steps

/-- Taking a child out of any record of a regular repository. -/
theorem Regular.removeChild (hr : r.Regular) (h : r.removeChild k c = .ok (s, changed)) :
    s.Regular ∧ s.ownRange = r.ownRange := by
  have hcases := removeChild_eq_ok.mp h
  have hown : s.ownRange = r.ownRange := by
    obtain ⟨header, a, -, ⟨-, rfl, -⟩ | ⟨-, rfl, -⟩⟩ := hcases
    · exact dropChild_ownRange ..
    · rfl
  refine ⟨hr.of_pruned (reading?_of_removeChild h) hown (fun j hj => hj.removeChild h) ?_, hown⟩
  intro j record old hget hold
  obtain ⟨header, a, -, ⟨-, rfl, -⟩ | ⟨-, rfl, -⟩⟩ := hcases
  · obtain ⟨old', hold', htype⟩ := type_of_dropChild hget
    exact Option.some.inj (hold'.symm.trans hold) ▸ htype
  · exact congrArg Record.type (Option.some.inj (hget.symm.trans hold))

/-- Taking a child out of a record takes that one listing out of the relation. -/
theorem Regular.removeChild_amended (hr : r.Regular) (ha : r.reading? k = some a) (c : Entity) :
    ∃ s, r.removeChild k c = .ok (s, c ∈ a.children) ∧ (c ∉ a.children → s = r) ∧
      r.Amended s {k} (r.listings \ {(a.container, a.kind, c)}) := by
  obtain ⟨s, h⟩ := removeChild_reading ha c
  obtain ⟨hs, hown⟩ := hr.removeChild h
  have hpruned := reading?_of_removeChild h
  refine ⟨s, h, fun hc => ?_, hs, hown, ?_, steady_of_pruned hpruned, fun j hj => ?_⟩
  · obtain ⟨header, b, -, ⟨-, -, hmem⟩ | ⟨-, rfl, -⟩⟩ := removeChild_eq_ok.mp h
    · exact absurd (of_decide_eq_true hmem) hc
    · rfl
  · ext ⟨parent, kind, child⟩
    rw [mem_listings_of_pruned hpruned, Set.mem_sdiff, mem_listings, Set.mem_singleton_iff]
    simp only [Prod.mk.injEq]
    constructor
    · rintro ⟨j, b, hb, rfl, rfl, hchild, -, -, htaken⟩
      refine ⟨⟨j, b, hb, rfl, rfl, hchild⟩, ?_⟩
      rintro ⟨hcontainer, hkind, rfl⟩
      -- only the record itself has this container and kind
      obtain rfl := hr.distinct hb ha hcontainer hkind
      simp at htaken
    · rintro ⟨⟨j, b, hb, rfl, rfl, hchild⟩, hother⟩
      refine ⟨j, b, hb, rfl, rfl, hchild, by simp, by simp, fun htaken => hother ?_⟩
      split_ifs at htaken with hj
      · subst hj
        obtain rfl := Option.some.inj (ha.symm.trans hb)
        exact ⟨rfl, rfl, List.mem_singleton.mp htaken⟩
      · simp at htaken
  · exact get?_of_removeChild h fun _ => hj

/-- A record that is left after stripping is of the type it was. -/
theorem type_of_strip {record : Record} (range : HandleRange)
    (h : (r.strip e range).1.get? k = some record) :
    ∃ old, r.get? k = some old ∧ record.type = old.type := by
  refine strip_induction (p := fun s => ∀ record, s.get? k = some record →
    ∃ old, r.get? k = some old ∧ record.type = old.type) (fun s j hs record hget => ?_)
    (fun s j _ _ _ _ hs record hget => ?_) (fun record hget => ⟨record, hget, rfl⟩) record h
  · rw [get?_erase] at hget
    split_ifs at hget
    exact hs record hget
  · obtain ⟨mid, hmid, htype⟩ := type_of_dropChild hget
    obtain ⟨old, hold, htype'⟩ := hs mid hmid
    exact ⟨old, hold, htype.trans htype'⟩

/-- Stripping an entity takes every listing that names it out of the relation, and the handles it
gives are those of the records that are not as they were. -/
theorem Regular.strip_amended (hr : r.Regular) (e : Entity) :
    r.Amended (r.strip e r.ownRange).1 {k | k ∈ (r.naming e r.ownRange).map Prod.fst}
      {l | l ∈ r.listings ∧ l.1 ≠ e ∧ l.2.2 ≠ e} ∧
    ∀ k ∈ (r.naming e r.ownRange).map Prod.fst, (r.strip e r.ownRange).1.get? k ≠ r.get? k := by
  have hpruned := r.reading?_strip e
  have hown : (r.strip e r.ownRange).1.ownRange = r.ownRange := strip_ownRange ..
  refine ⟨⟨hr.of_pruned hpruned hown (fun k hk => hk.strip e _) fun k record old hget hold => ?_,
    hown, ?_, steady_of_pruned hpruned, fun k hk => get?_strip_of_not_mem e _ hk⟩, fun k hk => ?_⟩
  · obtain ⟨old', hold', htype⟩ := type_of_strip _ hget
    exact Option.some.inj (hold'.symm.trans hold) ▸ htype
  · ext ⟨parent, kind, child⟩
    rw [mem_listings_of_pruned hpruned, Set.mem_ofPred_eq, mem_listings]
    simp only [List.mem_singleton, List.not_mem_nil, not_false_eq_true, and_true]
    constructor
    · rintro ⟨j, b, hb, hparent, hkind, hchild, hne, hne'⟩
      exact ⟨⟨j, b, hb, hparent, hkind, hchild⟩, hne, hne'⟩
    · rintro ⟨⟨j, b, hb, hparent, hkind, hchild⟩, hne, hne'⟩
      exact ⟨j, b, hb, hparent, hkind, hchild, hne, hne'⟩
  · -- the record names the entity, and afterwards it does not
    obtain ⟨a, ha, hhit⟩ := mem_naming_handles.mp hk
    intro hsame
    have hpruned := hpruned k
    rw [reading?_congr hown hsame, ha, Option.bind_some, eq_comm] at hpruned
    obtain ⟨hcontainer, -, -⟩ := Association.prune?_eq_some.mp hpruned
    refine hhit.elim (fun he => hcontainer (List.mem_singleton.mpr he)) fun hc => ?_
    exact ((Association.mem_of_prune? hpruned).mp hc).2.1 (List.mem_singleton_self e)

end steps

/-- A child has been listed that was not: in a new record, or after those of the one record there is
of its container and kind. -/
structure Adds (r s : Repository) (k : RecordHandle) (b : Association) (child : Entity) : Prop where
  ownRange : s.ownRange = r.ownRange
  others : ∀ j, j ≠ k → s.get? j = r.get? j
  legible : ∀ j, r.Legible j → s.Legible j
  read : ∀ j, s.reading? j = if j = k then some b else r.reading? j
  place : (r.get? k = none ∧ b.children = [child]) ∨
    ∃ a, r.reading? k = some a ∧ child ∉ a.children ∧ b = a.adding child
  alone : ∀ j a, j ≠ k → r.reading? j = some a → a.container = b.container → a.kind ≠ b.kind

namespace Adds

variable (h : r.Adds s k b child)
include h

theorem written : s.reading? k = some b := by rw [h.read, if_pos rfl]

theorem child_mem : child ∈ b.children := by
  rcases h.place with ⟨-, hchildren⟩ | ⟨a, -, -, rfl⟩
  · simp [hchildren]
  · simp [Association.adding]

theorem children_nodup (hr : r.Regular) : b.children.Nodup := by
  rcases h.place with ⟨-, hchildren⟩ | ⟨a, ha, hnew, rfl⟩
  · simp [hchildren]
  · simpa [Association.adding, List.nodup_append] using
      ⟨hr.nodup ha, fun c hc hcc => hnew (hcc ▸ hc)⟩

/-- The record is an association record if it was there before. -/
theorem type_eq {record old : Record} (hget : s.get? j = some record) (hold : r.get? j = some old) :
    record.type = old.type := by
  by_cases hj : j = k
  · subst hj
    obtain ⟨record', -, hrecord, -, htype, -⟩ := reading?_eq_some.mp h.written
    obtain rfl := Option.some.inj (hget.symm.trans hrecord)
    rcases h.place with ⟨hfree, -⟩ | ⟨a, ha, -⟩
    · simp [hfree] at hold
    · obtain ⟨old', -, hold', -, htype', -⟩ := reading?_eq_some.mp ha
      obtain rfl := Option.some.inj (hold.symm.trans hold')
      exact htype.trans htype'.symm
  · rw [h.others j hj, hold] at hget
    exact congrArg Record.type (Option.some.inj hget).symm

theorem regular (hr : r.Regular) : s.Regular where
  readable hget hin :=
    hr.readable_of h.ownRange h.legible (fun _ _ _ hget hold => h.type_eq hget hold) hget hin
  distinct {i j c d} hc hd hcontainer hkind := by
    rw [h.read] at hc hd
    split_ifs at hc hd with hi hj hj
    · rw [hi, hj]
    · obtain rfl := Option.some.inj hc
      exact absurd hkind.symm (h.alone j d hj hd hcontainer.symm)
    · obtain rfl := Option.some.inj hd
      exact absurd hkind (h.alone i c hi hc hcontainer)
    · exact hr.distinct hc hd hcontainer hkind
  nonempty {j c} hc := by
    rw [h.read] at hc
    split_ifs at hc
    · exact Option.some.inj hc ▸ List.ne_nil_of_mem h.child_mem
    · exact hr.nonempty hc
  nodup {j c} hc := by
    rw [h.read] at hc
    split_ifs at hc
    · exact Option.some.inj hc ▸ h.children_nodup hr
    · exact hr.nodup hc

theorem not_mem_listings : (b.container, b.kind, child) ∉ r.listings := by
  rintro ⟨j, d, hd, hcontainer, hkind, hchild⟩
  by_cases hj : j = k
  · subst hj
    rcases h.place with ⟨hfree, -⟩ | ⟨a, ha, hnew, -⟩
    · simp [reading?_of_get?_none hfree] at hd
    · exact hnew (Option.some.inj (hd.symm.trans ha) ▸ hchild)
  · exact h.alone j d hj hd hcontainer hkind

theorem listings_eq : s.listings = r.listings ∪ {(b.container, b.kind, child)} := by
  ext ⟨p, t, c⟩
  rw [Set.mem_union, Set.mem_singleton_iff, mem_listings]
  constructor
  · rintro ⟨j, d, hd, rfl, rfl, hc⟩
    rw [h.read] at hd
    split_ifs at hd with hj
    · obtain rfl := Option.some.inj hd
      rcases h.place with ⟨-, hchildren⟩ | ⟨a, ha, -, rfl⟩
      · have hc : c ∈ [child] := hchildren ▸ hc
        exact .inr (by rw [List.mem_singleton.mp hc])
      · rcases List.mem_append.mp hc with hc | hc
        · exact .inl ⟨k, a, ha, rfl, rfl, hc⟩
        · exact .inr (by rw [List.mem_singleton.mp hc])
    · exact .inl ⟨j, d, hd, rfl, rfl, hc⟩
  · rintro (⟨j, d, hd, rfl, rfl, hc⟩ | heq)
    · by_cases hj : j = k
      · subst hj
        rcases h.place with ⟨hfree, -⟩ | ⟨a, ha, -, rfl⟩
        · simp [reading?_of_get?_none hfree] at hd
        · obtain rfl := Option.some.inj (hd.symm.trans ha)
          exact ⟨j, _, h.written, rfl, rfl, List.mem_append_left _ hc⟩
      · exact ⟨j, d, by rw [h.read, if_neg hj, hd], rfl, rfl, hc⟩
    · obtain ⟨rfl, rfl, rfl⟩ : p = b.container ∧ t = b.kind ∧ c = child := by simpa using heq
      exact ⟨k, b, h.written, rfl, rfl, h.child_mem⟩

theorem steady : r.Steady s := by
  intro j d d' hd hd'
  by_cases hj : j = k
  · subst hj
    obtain rfl := Option.some.inj (h.written.symm.trans hd')
    rcases h.place with ⟨hfree, -⟩ | ⟨a, ha, hnew, rfl⟩
    · simp [reading?_of_get?_none hfree] at hd
    · obtain rfl := Option.some.inj (hd.symm.trans ha)
      refine ⟨rfl, rfl, ?_⟩
      rw [Association.adding, List.filter_append, List.filter_singleton]
      simp only [hnew, decide_false, cond_false, List.append_nil]
      exact List.filter_congr fun c hc => by simp [hc]
  · rw [h.read, if_neg hj, hd] at hd'
    obtain rfl := Option.some.inj hd'
    exact ⟨rfl, rfl, rfl⟩

end Adds

/-- A child that is listed under a parent is listed there already, or it is added. -/
theorem Regular.associate_cases (hr : r.Regular) (hrange : r.ownRange.first ≤ r.ownRange.last)
    (h : r.associate parent kind child = .ok (s, k, changed)) :
    (changed = false ∧ s = r ∧ ∃ a, r.reading? k = some a ∧ a.container = parent ∧ a.kind = kind ∧
      child ∈ a.children) ∨
    (changed = true ∧ ∃ b, b.container = parent ∧ b.kind = kind ∧ r.Adds s k b child) := by
  rcases associate_reading hrange h with ⟨a, ha, hparent, hkind, hchild, rfl, rfl⟩ |
    ⟨rfl, hown, hothers, b, hread, hplace⟩
  · exact .inl ⟨rfl, rfl, a, ha, hparent, hkind, hchild⟩
  · have hlegible := (legible_of_associate h).2
    rcases hplace with ⟨a, ha, rfl, rfl, hnew, rfl⟩ | ⟨hnone, hfree, rfl⟩
    · refine .inr ⟨rfl, a.adding child, rfl, rfl, hown, hothers, hlegible, hread,
        .inr ⟨a, ha, hnew, rfl⟩, ?_⟩
      exact fun j d hj hd hcontainer hkind => hj (hr.distinct hd ha hcontainer hkind)
    · refine .inr ⟨rfl, _, rfl, rfl, hown, hothers, hlegible, hread, .inl ⟨hfree, rfl⟩, ?_⟩
      exact fun j a _ ha hcontainer hkind => hnone j a ha ⟨hcontainer, hkind⟩

/-- Listing a child adds it to the relation. The record that has changed is that of the container and
the kind, or there was none under its handle. -/
theorem Regular.associate_amended (hr : r.Regular) (hrange : r.ownRange.first ≤ r.ownRange.last)
    (h : r.associate parent kind child = .ok (s, k, changed)) :
    r.Amended s {k} (r.listings ∪ {(parent, kind, child)}) ∧
      (changed = true ↔ (parent, kind, child) ∉ r.listings) ∧ (changed = false → s = r) ∧
      (r.get? k = none ∨ ∃ a, r.reading? k = some a ∧ a.container = parent ∧ a.kind = kind) := by
  rcases hr.associate_cases hrange h with ⟨rfl, rfl, a, ha, hparent, hkind, hchild⟩ |
    ⟨rfl, b, rfl, rfl, hadds⟩
  · have hlisted : (parent, kind, child) ∈ s.listings := ⟨k, a, ha, hparent, hkind, hchild⟩
    have hunion := Set.union_eq_left.mpr (Set.singleton_subset_iff.mpr hlisted)
    refine ⟨⟨hr, rfl, hunion.symm, .refl s, fun _ _ => rfl⟩, ?_, fun _ => rfl,
      .inr ⟨a, ha, hparent, hkind⟩⟩
    exact ⟨fun hc => by simp at hc, fun hnot => absurd hlisted hnot⟩
  · refine ⟨⟨hadds.regular hr, hadds.ownRange, hadds.listings_eq, hadds.steady, hadds.others⟩,
      by simpa using hadds.not_mem_listings, fun hc => by simp at hc, ?_⟩
    rcases hadds.place with ⟨hfree, -⟩ | ⟨a, ha, -, rfl⟩
    · exact .inl hfree
    · exact .inr ⟨a, ha, rfl, rfl⟩

/-- Why a child cannot be listed: the one record of its container and kind is full, or there is none
and no handle is free. -/
inductive Blocked (r : Repository) (parent : Entity) (kind : UInt8) (child : Entity) :
    RepositoryError → Prop
  | record {k : RecordHandle} {a : Association} (ha : r.reading? k = some a)
      (hcontainer : a.container = parent) (hkind : a.kind = kind) (hnew : child ∉ a.children)
      (hfull : a.children.length = Association.maxChildren) :
      r.Blocked parent kind child (.associationFull k)
  | range (hnone : ∀ k a, r.reading? k = some a → ¬ (a.container = parent ∧ a.kind = kind))
      (hfull : r.Full r.ownRange) : r.Blocked parent kind child (.noFreeHandle r.ownRange)

theorem Regular.associate_eq_error_iff (hr : r.Regular)
    (hrange : r.ownRange.first ≤ r.ownRange.last) {cause : RepositoryError} :
    r.associate parent kind child = .error cause ↔ r.Blocked parent kind child cause := by
  unfold associate
  cases hfind : r.findAssociation? parent kind r.ownRange with
  | some k =>
    obtain ⟨⟨a, ha, hcontainer, hkind⟩, -⟩ := findAssociation?_reading.mp hfind
    obtain ⟨header, hread⟩ := association_of_reading ha
    simp only [addChild, hread, bind, Except.bind, pure, Except.pure]
    constructor
    · intro h
      split_ifs at h with hmem hfull <;> simp only [Except.map, reduceCtorEq] at h
      exact Except.error.inj h ▸ .record ha hcontainer hkind hmem hfull
    · rintro (⟨hd, hcontainer', hkind', hnew, hfull⟩ | ⟨hnone, -⟩)
      · obtain rfl := hr.distinct hd ha (hcontainer'.trans hcontainer.symm) (hkind'.trans hkind.symm)
        obtain rfl := Option.some.inj (hd.symm.trans ha)
        rw [if_neg hnew, if_pos hfull]
        rfl
      · exact absurd ⟨hcontainer, hkind⟩ (hnone k a ha)
  | none =>
    have hnone := findAssociation?_reading_none.mp hfind
    have hmap : (r.createAssociation parent kind child).map (fun made => (made.1, made.2, true)) =
        .error cause ↔ r.createAssociation parent kind child = .error cause := by
      cases r.createAssociation parent kind child <;> simp [Except.map]
    refine hmap.trans ((createAssociation_eq_error_iff hrange).trans ?_)
    constructor
    · rintro ⟨hfull, rfl⟩
      exact .range hnone hfull
    · rintro (⟨ha, hcontainer, hkind, -, -⟩ | ⟨-, hfull⟩)
      · exact absurd ⟨hcontainer, hkind⟩ (hnone _ _ ha)
      · exact ⟨hfull, rfl⟩

/-- The relation stays one under any edits. -/
theorem Regular.after (hr : r.Regular) (hrange : r.ownRange.first ≤ r.ownRange.last) {edit : Edit}
    (hedit : edit.Relists r.ownRange) :
    (r.after edit).Regular ∧ (r.after edit).ownRange = r.ownRange := by
  cases edit with
  | associate parent kind child =>
    cases h : r.associate parent kind child with
    | error cause => simpa [Repository.after, attempt, h, settle] using hr
    | ok listed =>
      obtain ⟨s, k, changed⟩ := listed
      obtain ⟨hamended, -⟩ := hr.associate_amended hrange h
      simpa [Repository.after, attempt, h, settle] using ⟨hamended.regular, hamended.ownRange⟩
  | removeChild k child =>
    cases h : r.removeChild k child with
    | error cause => simpa [Repository.after, attempt, h, settle] using hr
    | ok removed => simpa [Repository.after, attempt, h, settle] using hr.removeChild h
  | strip e range =>
    obtain rfl : range = r.ownRange := hedit
    obtain ⟨hamended, -⟩ := hr.strip_amended e
    rw [Repository.after, attempt, report_fst]
    exact ⟨hamended.regular, hamended.ownRange⟩
  | _ => exact hedit.elim

theorem Regular.afterAll (hr : r.Regular) (hrange : r.ownRange.first ≤ r.ownRange.last)
    {edits : List Edit} (hedits : ∀ edit ∈ edits, edit.Relists r.ownRange) :
    (r.afterAll edits).Regular ∧ (r.afterAll edits).ownRange = r.ownRange := by
  induction edits generalizing r with
  | nil => exact ⟨hr, rfl⟩
  | cons edit rest ih =>
    obtain ⟨hregular, hown⟩ := hr.after hrange (hedits edit List.mem_cons_self)
    obtain ⟨hrest, hown'⟩ := ih hregular (hown ▸ hrange) fun edit' h =>
      hown ▸ hedits edit' (List.mem_cons_of_mem _ h)
    exact ⟨hrest, hown'.trans hown⟩

/-- The controller's own association records, edited in any way that lists children, takes them out or
rids the records of an entity, stay a relation. Listing a child adds it there, and fails only where no
record or no handle is left for it; the other edits take out what they name; and all records that are
not concerned keep their bytes. -/
theorem edits_keep_relation {r₀ : Repository} {edits : List Edit} (hr₀ : r₀.Regular)
    (hrange : r₀.ownRange.first ≤ r₀.ownRange.last)
    (hedits : ∀ edit ∈ edits, edit.Relists r₀.ownRange) :
    let r := r₀.afterAll edits
    r.Regular ∧
    (∀ parent kind child s k changed, r.associate parent kind child = .ok (s, k, changed) →
      r.Amended s {k} (r.listings ∪ {(parent, kind, child)}) ∧
      (changed = true ↔ (parent, kind, child) ∉ r.listings) ∧ (changed = false → s = r) ∧
      (r.get? k = none ∨ ∃ a, r.reading? k = some a ∧ a.container = parent ∧ a.kind = kind)) ∧
    (∀ parent kind child cause, r.associate parent kind child = .error cause →
      r.after (.associate parent kind child) = r ∧ r.Blocked parent kind child cause) ∧
    (∀ e, ∃ s touched, r.strip e r.ownRange = (s, .ok touched) ∧
      r.Amended s {k | k ∈ touched} {l | l ∈ r.listings ∧ l.1 ≠ e ∧ l.2.2 ≠ e} ∧
      touched.Pairwise (· < ·) ∧ ∀ k ∈ touched, s.get? k ≠ r.get? k) ∧
    ∀ k a c, r.reading? k = some a → ∃ s, r.removeChild k c = .ok (s, c ∈ a.children) ∧
      (c ∉ a.children → s = r) ∧ r.Amended s {k} (r.listings \ {(a.container, a.kind, c)}) := by
  intro r
  obtain ⟨hr, hown⟩ := hr₀.afterAll hrange hedits
  have hrange : r.ownRange.first ≤ r.ownRange.last := hown ▸ hrange
  refine ⟨hr, fun parent kind child s k changed h => hr.associate_amended hrange h,
    fun parent kind child cause h => ⟨?_, (hr.associate_eq_error_iff hrange).mp h⟩,
    fun e => ?_, fun k a c ha => hr.removeChild_amended ha c⟩
  · simp only [Repository.after, attempt, h, settle]
  · obtain ⟨hamended, hchanged⟩ := hr.strip_amended e
    have hsorted := List.pairwise_map.mpr (r.naming_pairwise e r.ownRange)
    refine ⟨_, _, ?_, hamended, hsorted, hchanged⟩
    rw [strip_eq]

/-- One record that lists two fans of a chassis. It has been written under another change number than
the repository writes. -/
def fanRecord : Repository :=
  let fans : Association := ⟨1, Association.physical, ⟨45, 1, 1⟩, [⟨29, 1, 1⟩, ⟨29, 2, 1⟩]⟩
  (empty ⟨1, 8⟩ ⟨16, 32⟩).put 3 ⟨.entityAssociation, .own, encodeRecordAs 3 7 fans⟩

/-- The first fan goes and a third one comes. Then the second one is taken out. -/
theorem edits_keep_relation_fans :
    let r := fanRecord.afterAll [.strip ⟨29, 1, 1⟩ ⟨1, 8⟩,
      .associate ⟨45, 1, 1⟩ Association.physical ⟨29, 3, 1⟩, .removeChild 4 ⟨29, 3, 1⟩]
    fanRecord.Regular ∧ r.reading? 3 =
      some ⟨1, Association.physical, ⟨45, 1, 1⟩, [⟨29, 2, 1⟩, ⟨29, 3, 1⟩]⟩ ∧
      ∃ s, r.removeChild 3 ⟨29, 2, 1⟩ = .ok (s, true) ∧
        r.Amended s {3} (r.listings \ {(⟨45, 1, 1⟩, Association.physical, ⟨29, 2, 1⟩)}) := by
  intro r
  have hget {k : RecordHandle} {record : Record} (h : fanRecord.get? k = some record) :
      k = 3 ∧ record = ⟨.entityAssociation, .own, encodeRecordAs 3 7
        (⟨1, Association.physical, ⟨45, 1, 1⟩, [⟨29, 1, 1⟩, ⟨29, 2, 1⟩]⟩ : Association)⟩ := by
    rw [fanRecord, get?_put] at h
    split_ifs at h with hk
    · exact ⟨hk, (Option.some.inj h).symm⟩
    · simp [get?, empty] at h
  have hdecode := Association.decodeRecord_encodeRecordAs
    (a := ⟨1, Association.physical, ⟨45, 1, 1⟩, [⟨29, 1, 1⟩, ⟨29, 2, 1⟩]⟩) (by decide) 3 7
  have hread {k : RecordHandle} {a : Association} (h : fanRecord.reading? k = some a) :
      k = 3 ∧ a = ⟨1, Association.physical, ⟨45, 1, 1⟩, [⟨29, 1, 1⟩, ⟨29, 2, 1⟩]⟩ := by
    obtain ⟨record, header, hk, -, -, ha⟩ := reading?_eq_some.mp h
    obtain ⟨rfl, rfl⟩ := hget hk
    exact ⟨rfl, (Prod.mk.inj (Except.ok.inj (ha.symm.trans hdecode))).2⟩
  have hregular : fanRecord.Regular := by
    refine ⟨fun h _ _ => ?_, fun ha hb _ _ => (hread ha).1.trans (hread hb).1.symm, fun ha => ?_,
      fun ha => ?_⟩
    · obtain ⟨rfl, rfl⟩ := hget h
      exact ⟨_, hdecode⟩
    · simp [(hread ha).2]
    · simp [(hread ha).2]
  have hedits : ∀ edit ∈ [Edit.strip ⟨29, 1, 1⟩ ⟨1, 8⟩,
      .associate ⟨45, 1, 1⟩ Association.physical ⟨29, 3, 1⟩, .removeChild 4 ⟨29, 3, 1⟩],
      edit.Relists fanRecord.ownRange := by
    simp [Edit.Relists, fanRecord, empty]
  obtain ⟨-, -, -, -, hremove⟩ := edits_keep_relation hregular (by decide) hedits
  have ha : r.reading? 3 = some ⟨1, Association.physical, ⟨45, 1, 1⟩, [⟨29, 2, 1⟩, ⟨29, 3, 1⟩]⟩ := by
    decide +kernel
  obtain ⟨s, hs, -, hamended⟩ := hremove 3 _ ⟨29, 2, 1⟩ ha
  exact ⟨hregular, ha, s, hs, hamended⟩

end DescriptorExchange.Repository
