import DescriptorExchange.Proofs.Repository.Listing

/-!
Listing children under their parents, and taking them out again. In a tidy repository every one of
these operations edits the associations that are held and touches nothing else.
-/
namespace DescriptorExchange

namespace Association

/-- What is left of an association once a child is out of it: nothing, if that was the only one. -/
def trim? (a : Association) (e : Entity) : Option Association :=
  if (a.without e).children = [] then none else some (a.without e)

/-- What is left of an association once an entity is gone. -/
def strip? (a : Association) (e : Entity) : Option Association :=
  if a.container = e then none else a.trim? e

/-- An association with some of the children of another one, in the same order. -/
def Within (b a : Association) : Prop :=
  b.children.Sublist a.children ∧ b = { a with children := b.children }

variable {a b c : Association} {e : Entity}

theorem Within.refl (a : Association) : a.Within a := ⟨List.Sublist.refl _, rfl⟩

theorem Within.trans (hbc : c.Within b) (hab : b.Within a) : c.Within a := by
  refine ⟨hbc.1.trans hab.1, ?_⟩
  rw [hbc.2, hab.2]

theorem trim?_eq_some : a.trim? e = some b ↔ (a.without e).children ≠ [] ∧ a.without e = b := by
  unfold trim?
  split_ifs with h <;> simp [h]

theorem strip?_eq_some :
    a.strip? e = some b ↔ a.container ≠ e ∧ (a.without e).children ≠ [] ∧ a.without e = b := by
  unfold strip?
  split_ifs with h <;> simp [h, trim?_eq_some]

theorem within_of_trim? (h : a.trim? e = some b) : b.Within a := by
  obtain ⟨-, rfl⟩ := trim?_eq_some.mp h
  exact ⟨List.filter_sublist, rfl⟩

theorem within_of_strip? (h : a.strip? e = some b) : b.Within a := by
  obtain ⟨-, -, rfl⟩ := strip?_eq_some.mp h
  exact ⟨List.filter_sublist, rfl⟩

theorem Proper.trim? (ha : a.Proper) (h : a.trim? e = some b) : b.Proper := by
  obtain ⟨hleft, rfl⟩ := trim?_eq_some.mp h
  exact ha.without hleft

theorem Proper.trim?_of_not_mem (ha : a.Proper) (he : e ∉ a.children) : a.trim? e = some a := by
  rw [trim?_eq_some, without_of_not_mem he]
  exact ⟨ha.nonempty, rfl⟩

/-- Children listed after some that stay. -/
theorem Proper.trim?_append {more : List Entity} (ha : a.Proper) (he : e ∉ a.children) :
    ({ a with children := a.children ++ more } : Association).trim? e =
      some { a with children := a.children ++ more.filter (· ≠ e) } := by
  have hfilter : a.children.filter (· ≠ e) = a.children :=
    List.filter_eq_self.mpr fun c hc => by
      simp only [ne_eq, decide_not, Bool.not_eq_true', decide_eq_false_iff_not]
      rintro rfl
      exact he hc
  rw [trim?_eq_some, Association.without, List.filter_append, hfilter]
  exact ⟨by simp [ha.nonempty], rfl⟩

end Association

namespace Repository

variable {r s : Repository} {j k : RecordHandle} {a b : Association} {parent child e : Entity}
  {kind : UInt8}

theorem Tidy.findAssociation?_eq_some (hr : r.Tidy) :
    r.findAssociation? parent kind r.ownRange = some k ↔
      (∃ a, r.Holds k a ∧ a.container = parent ∧ a.kind = kind) ∧
        ∀ j b, r.Holds j b → b.container = parent → b.kind = kind → k ≤ j := by
  simp only [findAssociation?_eq_some_iff, hr.mem_associations]
  constructor
  · rintro ⟨⟨header, a, ⟨ha, -⟩, hnamed⟩, hmin⟩
    exact ⟨⟨a, ha, hnamed⟩, fun j b hb => hmin j _ b ⟨hb, rfl⟩⟩
  · rintro ⟨⟨a, ha, hnamed⟩, hmin⟩
    exact ⟨⟨_, a, ⟨ha, rfl⟩, hnamed⟩, fun j header b hmem => hmin j b hmem.1⟩

/-- A record is the one found for its container and its kind unless another one comes before. -/
theorem Holds.findAssociation? (ha : r.Holds k a) (hr : r.Tidy)
    (hfirst : ∀ j b, j ≠ k → r.Holds j b → b.container = a.container → b.kind = a.kind → k ≤ j) :
    r.findAssociation? a.container a.kind r.ownRange = some k := by
  refine hr.findAssociation?_eq_some.mpr ⟨⟨a, ha, rfl, rfl⟩, fun j b hb hparent hkind => ?_⟩
  by_cases hjk : j = k
  · exact UInt32.le_of_eq hjk.symm
  · exact hfirst j b hjk hb hparent hkind

theorem Tidy.findAssociation?_eq_none (hr : r.Tidy)
    (h : r.findAssociation? parent kind r.ownRange = none) (hb : r.Holds j b) :
    ¬ (b.container = parent ∧ b.kind = kind) := by
  simp only [findAssociation?, Option.map_eq_none_iff, List.find?_eq_none] at h
  simpa using h _ (hr.mem_associations.mpr ⟨hb, rfl⟩)

section child

variable (hr : r.Tidy) (ha : r.Holds k a)

include ha in
theorem get?_dropChild_self (e : Entity) :
    (r.dropChild k (writtenHeader k 0 a) a e).get? k = (a.trim? e).map (.listing k) := by
  have hleft : a.children.filter (· ≠ e) = (a.without e).children := rfl
  simp only [dropChild, hleft, Association.trim?, List.isEmpty_iff]
  split_ifs
  · rw [get?_erase, if_pos rfl]
    rfl
  · exact get?_putAssociation_self ha _

include ha in
theorem removeChild_of_holds (child : Entity) : r.removeChild k child =
    .ok (if child ∈ a.children then (r.dropChild k (writtenHeader k 0 a) a child, true)
      else (r, false)) := by
  simp only [removeChild, association_of_holds ha, bind, Except.bind, pure, Except.pure]
  split_ifs <;> rfl

include hr ha in
/-- Taking a child out of one record. -/
theorem dropChild_relisted (e : Entity) : Relisted r (r.dropChild k (writtenHeader k 0 a) a e) ∧
    ∀ j b, (r.dropChild k (writtenHeader k 0 a) a e).Holds j b ↔
      ∃ a, r.Holds j a ∧ (if j = k then a.trim? e else some a) = some b := by
  refine relisted_of_edit hr (by simp) (by simp) (fun j a => if j = k then a.trim? e else some a)
    (fun j a' b ha' hb => ?_) (fun j a' ha' => ?_) fun j hj => ?_
  · split_ifs at hb
    · exact ha'.proper.trim? hb
    · obtain rfl := Option.some.inj hb
      exact ha'.proper
  · split_ifs with hjk
    · subst hjk
      obtain rfl := ha.inj ha'
      exact get?_dropChild_self ha e
    · rw [get?_dropChild_ne _ _ _ hjk, ha'.get]
      rfl
  · exact get?_dropChild_ne _ _ _ fun hjk => hj a (hjk ▸ ha)

end child

/-- Taking a child out of a record, as the repository is asked to do it: it does not fail. -/
theorem removeChild_relisted (hr : r.Tidy) (ha : r.Holds k a) (e : Entity) :
    ∃ s changed, r.removeChild k e = .ok (s, changed) ∧ Relisted r s ∧ ∀ j b, s.Holds j b ↔
      ∃ a, r.Holds j a ∧ (if j = k then a.trim? e else some a) = some b := by
  rw [removeChild_of_holds ha]
  split_ifs with hmem
  · exact ⟨_, true, rfl, dropChild_relisted hr ha e⟩
  · refine ⟨r, false, rfl, .refl hr, fun j b => ⟨fun hb => ⟨b, hb, ?_⟩, ?_⟩⟩
    · split_ifs with hjk
      · subst hjk
        obtain rfl := ha.inj hb
        exact hb.proper.trim?_of_not_mem hmem
      · rfl
    · rintro ⟨a', ha', h⟩
      split_ifs at h with hjk
      · subst hjk
        obtain rfl := ha.inj ha'
        rw [ha.proper.trim?_of_not_mem hmem] at h
        exact Option.some.inj h ▸ ha
      · exact Option.some.inj h ▸ ha'

/-- Of what the records list, one child in one record is gone. -/
theorem names_of_trim {p c : Entity}
    (hholds : ∀ j b, s.Holds j b ↔ ∃ a, r.Holds j a ∧
    (if j = k then a.trim? e else some a) = some b) :
    s.Names j p c ↔ r.Names j p c ∧ ¬ (j = k ∧ c = e) := by
  constructor
  · rintro ⟨b, hb, rfl, hc⟩
    obtain ⟨a, ha, htrim⟩ := (hholds j b).mp hb
    split_ifs at htrim with hjk
    · obtain ⟨-, rfl⟩ := Association.trim?_eq_some.mp htrim
      obtain ⟨hc, hne⟩ := Association.mem_children_without.mp hc
      exact ⟨⟨a, ha, rfl, hc⟩, fun h => hne h.2⟩
    · obtain rfl := Option.some.inj htrim
      exact ⟨⟨a, ha, rfl, hc⟩, fun h => hjk h.1⟩
  · rintro ⟨⟨a, ha, rfl, hc⟩, hne⟩
    by_cases hjk : j = k
    · have hc' : c ∈ (a.without e).children :=
        Association.mem_children_without.mpr ⟨hc, fun h => hne ⟨hjk, h⟩⟩
      refine ⟨a.without e, (hholds j _).mpr ⟨a, ha, ?_⟩, rfl, hc'⟩
      rw [if_pos hjk, Association.trim?_eq_some]
      exact ⟨List.ne_nil_of_mem hc', rfl⟩
    · exact ⟨a, (hholds j a).mpr ⟨a, ha, if_neg hjk⟩, rfl, hc⟩

/-- No listing has anything but some of its children left. -/
structure Shortens (r s : Repository) : Prop where
  within : ∀ {k b}, s.Holds k b → ∃ a, r.Holds k a ∧ b.Within a

theorem Shortens.refl (r : Repository) : Shortens r r := ⟨fun {_ b} hb => ⟨b, hb, .refl b⟩⟩

theorem Shortens.trans {t : Repository} (hrs : Shortens r s) (hst : Shortens s t) :
    Shortens r t where
  within hc := by
    obtain ⟨b, hb, hcb⟩ := hst.within hc
    obtain ⟨a, ha, hba⟩ := hrs.within hb
    exact ⟨a, ha, hcb.trans hba⟩

theorem shortens_of_trim (hholds : ∀ j b, s.Holds j b ↔ ∃ a, r.Holds j a ∧
    (if j = k then a.trim? e else some a) = some b) : Shortens r s where
  within {j b} hb := by
    obtain ⟨a, ha, htrim⟩ := (hholds j b).mp hb
    refine ⟨a, ha, ?_⟩
    split_ifs at htrim
    · exact Association.within_of_trim? htrim
    · exact Option.some.inj htrim ▸ .refl a

/-- One of several edits, each of which looks at the record it edits alone. -/
theorem get?_foldl_of_mem {α : Type} {edit : Repository → RecordHandle × α → Repository}
    (hedit : ∀ r entry j, j ≠ entry.1 → (edit r entry).get? j = r.get? j)
    (hlocal : ∀ r s entry, r.get? entry.1 = s.get? entry.1 →
      (edit r entry).get? entry.1 = (edit s entry).get? entry.1)
    {entries : List (RecordHandle × α)} (hnodup : (entries.map Prod.fst).Nodup)
    {entry : RecordHandle × α} (hmem : entry ∈ entries) (r : Repository) :
    (entries.foldl edit r).get? entry.1 = (edit r entry).get? entry.1 := by
  induction entries generalizing r with
  | nil => simp at hmem
  | cons first rest ih =>
    obtain ⟨hfirst, hrest⟩ := List.nodup_cons.mp hnodup
    rw [List.foldl_cons]
    rcases List.mem_cons.mp hmem with rfl | hmem
    · exact get?_foldl_ne hedit hfirst _
    · have hne : entry.1 ≠ first.1 := fun heq => hfirst (heq ▸ List.mem_map_of_mem hmem)
      rw [ih hrest hmem]
      exact hlocal _ _ _ (hedit r first entry.1 hne)

/-- A record that names an entity is edited once as the entity is stripped. -/
theorem get?_strip_of_mem {range : HandleRange} {entry : RecordHandle × RecordHeader × Association}
    (hmem : entry ∈ r.naming e range) :
    (r.strip e range).1.get? entry.1 = (stripEdit e r entry).get? entry.1 := by
  have hnodup : ((r.naming e range).map Prod.fst).Nodup :=
    List.pairwise_map.mpr ((r.naming_pairwise e range).imp fun hab => UInt32.ne_of_lt hab)
  rw [strip_eq]
  exact get?_foldl_of_mem (get?_stripEdit_ne e) (get?_stripEdit_local e) hnodup hmem r

/-- Stripping an entity takes away the records it is the container of, and takes it out of all
others. -/
theorem strip_relisted (hr : r.Tidy) (e : Entity) : Relisted r (r.strip e r.ownRange).1 ∧
    ∀ k b, (r.strip e r.ownRange).1.Holds k b ↔ ∃ a, r.Holds k a ∧ a.strip? e = some b := by
  refine relisted_of_edit hr (by simp) (by simp) (fun _ a => a.strip? e)
    (fun k a b ha hb => ?_) (fun k a ha => ?_) fun k hk => ?_
  · obtain ⟨-, hleft, rfl⟩ := Association.strip?_eq_some.mp hb
    exact ha.proper.without hleft
  · by_cases hhit : a.container = e ∨ e ∈ a.children
    · have hmem : (k, writtenHeader k 0 a, a) ∈ r.naming e r.ownRange :=
        mem_naming.mpr ⟨hr.mem_associations.mpr ⟨ha, rfl⟩, hhit⟩
      rw [get?_strip_of_mem hmem]
      simp only [stripEdit, Association.strip?]
      split_ifs
      · rw [get?_erase, if_pos rfl]
        rfl
      · exact get?_dropChild_self ha e
    · rw [not_or] at hhit
      rw [get?_strip_of_not_mem, ha.get, Association.strip?, if_neg hhit.1,
        ha.proper.trim?_of_not_mem hhit.2]
      · rfl
      · intro hmem
        obtain ⟨⟨_, header, b⟩, hb, rfl⟩ := List.mem_map.mp hmem
        obtain ⟨hb, hhit'⟩ := mem_naming.mp hb
        obtain rfl := ha.inj (hr.mem_associations.mp hb).1
        exact hhit'.elim hhit.1 hhit.2
  · refine get?_strip_of_not_mem e r.ownRange fun hmem => ?_
    obtain ⟨⟨_, header, b⟩, hb, rfl⟩ := List.mem_map.mp hmem
    exact hk b (hr.mem_associations.mp (mem_naming.mp hb).1).1

/-- Of what the records list, all that names the entity is gone. -/
theorem names_strip (hr : r.Tidy) (e p c : Entity) :
    (r.strip e r.ownRange).1.Names k p c ↔ r.Names k p c ∧ p ≠ e ∧ c ≠ e := by
  have hholds := (strip_relisted hr e).2 k
  constructor
  · rintro ⟨b, hb, rfl, hc⟩
    obtain ⟨a, ha, hstrip⟩ := (hholds b).mp hb
    obtain ⟨hcontainer, -, rfl⟩ := Association.strip?_eq_some.mp hstrip
    obtain ⟨hc, hne⟩ := Association.mem_children_without.mp hc
    exact ⟨⟨a, ha, rfl, hc⟩, hcontainer, hne⟩
  · rintro ⟨⟨a, ha, rfl, hc⟩, hp, hne⟩
    have hc' : c ∈ (a.without e).children := Association.mem_children_without.mpr ⟨hc, hne⟩
    exact ⟨a.without e, (hholds _).mpr ⟨a, ha, Association.strip?_eq_some.mpr
      ⟨hp, List.ne_nil_of_mem hc', rfl⟩⟩, rfl, hc'⟩

theorem strip_shortens (hr : r.Tidy) (e : Entity) : Shortens r (r.strip e r.ownRange).1 where
  within {k b} hb := by
    obtain ⟨a, ha, hstrip⟩ := ((strip_relisted hr e).2 k b).mp hb
    exact ⟨a, ha, Association.within_of_strip? hstrip⟩

section associate

variable {changed : Bool}

/-- The association under which a child is listed, and the one that was there before. -/
inductive Associated (r : Repository) (parent : Entity) (kind : UInt8) (child : Entity)
    (k : RecordHandle)
    (b : Association) : Prop
  | listed (hb : r.Holds k b)
  | extended {a : Association} (ha : r.Holds k a) (hnew : child ∉ a.children)
    (hb : b = a.adding child)
  | created (hfree : r.get? k = none) (hb : b = ⟨child.container, kind, parent, [child]⟩)

/-- Putting a listing in place of another one, or where there was no record. -/
theorem put_relisted (hr : r.Tidy) (hin : r.ownRange.contains k = true) (hb : b.Proper)
    (hplace : r.get? k = none ∨ ∃ a, r.Holds k a) : Relisted r (r.put k (.listing k b)) ∧
      ∀ j a, (r.put k (.listing k b)).Holds j a ↔ if j = k then a = b else r.Holds j a := by
  have hput : (r.put k (.listing k b)).Holds k b := ⟨hin, hb, get?_put_self ..⟩
  have hne {j : RecordHandle} (hj : j ≠ k) (a : Association) :
      (r.put k (.listing k b)).Holds j a ↔ r.Holds j a :=
    ⟨fun h => h.congr rfl (get?_put_ne _ _ hj).symm, fun h => h.congr rfl (get?_put_ne _ _ hj)⟩
  refine ⟨⟨rfl, rfl, fun j record hget hj htype => ?_, fun j record hout => ?_⟩, fun j a => ?_⟩
  · by_cases hjk : j = k
    · exact ⟨b, hjk ▸ hput⟩
    · rw [get?_put_ne _ _ hjk] at hget
      obtain ⟨a, ha⟩ := hr j record hget hj htype
      exact ⟨a, (hne hjk a).mpr ha⟩
  · by_cases hjk : j = k
    · subst hjk
      have htype : record.type ≠ .entityAssociation := hout.resolve_left (by simp [hin])
      rw [get?_put_self]
      constructor
      · intro h
        exact absurd (Option.some.inj h ▸ rfl) htype
      · intro h
        rcases hplace with hfree | ⟨a, ha⟩
        · simp [hfree] at h
        · rw [ha.get] at h
          exact absurd (Option.some.inj h ▸ rfl) htype
    · rw [get?_put_ne _ _ hjk]
  · split_ifs with hjk
    · subst hjk
      exact ⟨fun ha => ha.inj hput, fun ha => ha ▸ hput⟩
    · exact hne hjk a

/-- Listing a child under its parent. -/
theorem associate_relisted (hr : r.Tidy) (hrange : r.ownRange.first ≤ r.ownRange.last)
    (h : r.associate parent kind child = .ok (s, k, changed)) :
    Relisted r s ∧ ∃ b, r.Associated parent kind child k b ∧ b.container = parent ∧ b.kind = kind ∧
      child ∈ b.children ∧ (changed = false → r.Holds k b) ∧
      (changed = true → ¬ r.ListedAt k child) ∧
      ∀ j a, s.Holds j a ↔ if j = k then a = b else r.Holds j a := by
  rcases associate_eq_ok h with ⟨hfind, hadd⟩ | ⟨hfind, rfl, hnew⟩
  · obtain ⟨⟨a, ha, hparent, hkind⟩, -⟩ := hr.findAssociation?_eq_some.mp hfind
    obtain ⟨header, a', hread, hcases⟩ := addChild_eq_ok hadd
    rw [association_of_holds ha] at hread
    obtain ⟨rfl, rfl⟩ := Prod.mk.inj (Except.ok.inj hread)
    rcases hcases with ⟨hmem, rfl, rfl⟩ | ⟨hmem, hroom, rfl, rfl⟩
    · refine ⟨.refl hr, a, .listed ha, hparent, hkind, hmem, fun _ => ha, by simp, fun j b => ?_⟩
      split_ifs with hjk
      · subst hjk
        exact ⟨fun hb => hb.inj ha, fun hb => hb ▸ ha⟩
      · rfl
    · have hput :
          r.putAssociation k 0 (a.adding child) = r.put k (.listing k (a.adding child)) := by
        simp only [putAssociation_eq, ha.get]
        rfl
      obtain ⟨hrel, hholds⟩ := put_relisted hr ha.own (ha.proper.adding hmem hroom) (.inr ⟨a, ha⟩)
      rw [← hput] at hrel hholds
      refine ⟨hrel, a.adding child, .extended ha hmem rfl, hparent,
        hkind, by simp [Association.adding],
        by simp, fun _ => ?_, hholds⟩
      rintro ⟨a', ha', hmem'⟩
      exact hmem (ha.inj ha' ▸ hmem')
  · obtain ⟨hin, hfree, rfl⟩ := createAssociation_eq_ok hrange hnew
    have hproper := Association.proper_single child.container kind parent child
    obtain ⟨hrel, hholds⟩ := put_relisted hr hin hproper (.inl hfree)
    refine ⟨hrel, _, .created hfree rfl, rfl, rfl, by simp, by simp, fun _ => ?_, hholds⟩
    rintro ⟨a, ha, -⟩
    simp [ha.get] at hfree

/-- The record a child has been listed in is the one found for its parent and kind from then on. -/
theorem findAssociation?_associate (hr : r.Tidy) (hrange : r.ownRange.first ≤ r.ownRange.last)
    (h : r.associate parent kind child = .ok (s, k, changed)) :
    s.findAssociation? parent kind s.ownRange = some k := by
  obtain ⟨hrel, b, -, rfl, rfl, -, -, -, hholds⟩ := associate_relisted hr hrange h
  have hb : s.Holds k b := (hholds k b).mpr (by simp)
  refine hb.findAssociation? hrel.tidy fun j a hjk ha hparent hkind => ?_
  rw [hholds, if_neg hjk] at ha
  rcases associate_eq_ok h with ⟨hfind, -⟩ | ⟨hfind, -, -⟩
  · exact (hr.findAssociation?_eq_some.mp hfind).2 j a ha hparent hkind
  · exact absurd ⟨hparent, hkind⟩ (hr.findAssociation?_eq_none hfind ha)

/-- Listing a child adds the pair of it and its parent to what is listed, and nothing else. -/
theorem lists_associate (hr : r.Tidy) (hrange : r.ownRange.first ≤ r.ownRange.last)
    (h : r.associate parent kind child = .ok (s, k, changed)) (p c : Entity) :
    s.Lists s.ownRange p c ↔ r.Lists r.ownRange p c ∨ (p = parent ∧ c = child) := by
  obtain ⟨hrel, b, hb, hparent, hkind, hmem, -, -, hholds⟩ := associate_relisted hr hrange h
  have hbefore (c : Entity) (hc : c ∈ b.children) : c = child ∨ r.Lists r.ownRange parent c := by
    rcases hb with hb | ⟨ha, hnew, rfl⟩ | ⟨hfree, rfl⟩
    · exact .inr (hr.lists_iff.mpr ⟨k, b, hb, hparent, hc⟩)
    · rcases List.mem_append.mp hc with hc | hc
      · exact .inr (hr.lists_iff.mpr ⟨k, _, ha, hparent, hc⟩)
      · exact .inl (List.mem_singleton.mp hc)
    · exact .inl (List.mem_singleton.mp hc)
  have hafter (a : Association) (ha : r.Holds k a) :
      a.container = parent ∧ ∀ c ∈ a.children, c ∈ b.children := by
    rcases hb with hb | ⟨ha', hnew, rfl⟩ | ⟨hfree, rfl⟩
    · obtain rfl := ha.inj hb
      exact ⟨hparent, fun _ h => h⟩
    · obtain rfl := ha.inj ha'
      exact ⟨hparent, fun c hc => List.mem_append_left _ hc⟩
    · simp [ha.get] at hfree
  rw [hr.lists_iff, hrel.tidy.lists_iff]
  constructor
  · rintro ⟨j, a, ha, rfl, hc⟩
    have hj := (hholds j a).mp ha
    split_ifs at hj with hjk
    · subst hj
      exact (hbefore c hc).elim (fun h => .inr ⟨hparent, h⟩) fun h => .inl
        (hparent ▸ hr.lists_iff.mp h)
    · exact .inl ⟨j, a, hj, rfl, hc⟩
  · rintro (⟨j, a, ha, rfl, hc⟩ | ⟨rfl, rfl⟩)
    · by_cases hjk : j = k
      · subst hjk
        obtain ⟨hcontainer, hsub⟩ := hafter a ha
        exact ⟨j, b, (hholds j b).mpr (by simp), hparent.trans hcontainer.symm, hsub c hc⟩
      · exact ⟨j, a, (hholds j a).mpr (by simpa [hjk] using ha), rfl, hc⟩
    · exact ⟨k, b, (hholds k b).mpr (by simp), hparent, hmem⟩

end associate

end Repository
end DescriptorExchange
