import DescriptorExchange.Proofs.Repository.Relisting
import Mathlib.Data.List.Perm.Subperm

/-!
Listing children only lengthens records. A child enters the record its parent has for a kind once, and
children that have been taken out of the end of a record can be listed there again, which gives back
the record.
-/
namespace DescriptorExchange

/-- An association that has lost some children. -/
def Association.less (a : Association) (es : List Entity) : Association :=
  { a with children := a.children.filter (· ∉ es) }

/-- Children at the end that are lost leave those in front. -/
theorem filter_not_mem_append {front es : List Entity} (h : (front ++ es).Nodup) :
    (front ++ es).filter (· ∉ es) = front := by
  have hkept : front.filter (· ∉ es) = front := List.filter_eq_self.mpr fun c hc => by
    simpa using fun hc' => (List.nodup_append.mp h).2.2 c hc c hc' rfl
  have hgone : es.filter (· ∉ es) = [] := List.filter_eq_nil_iff.mpr fun c hc => by simpa using hc
  rw [List.filter_append, hkept, hgone, List.append_nil]

namespace Repository

variable {r s t : Repository} {j k : RecordHandle} {a b : Association} {parent child e : Entity}
  {kind : UInt8} {changed : Bool} {es : List Entity}

/-- The record that the parent has for the kind lists the child. -/
def Enters (r : Repository) (parent : Entity) (kind : UInt8) (child : Entity) : Prop :=
  ∃ k a, r.findAssociation? parent kind r.ownRange = some k ∧ r.Holds k a ∧ child ∈ a.children

/-- Records keep their children in front, and the record found for a parent and kind stays the one. -/
structure Lengthens (r s : Repository) : Prop where
  longer : ∀ {k a}, r.Holds k a → ∃ more, s.Holds k { a with children := a.children ++ more }
  found : ∀ {parent kind k}, r.findAssociation? parent kind r.ownRange = some k →
    s.findAssociation? parent kind s.ownRange = some k

namespace Lengthens

theorem refl (r : Repository) : Lengthens r r := ⟨fun {k a} ha => ⟨[], by simpa using ha⟩, id⟩

theorem trans (hrs : Lengthens r s) (hst : Lengthens s t) : Lengthens r t where
  longer ha := by
    obtain ⟨more, hmore⟩ := hrs.longer ha
    obtain ⟨rest, hrest⟩ := hst.longer hmore
    exact ⟨more ++ rest, by simpa using hrest⟩
  found h := hst.found (hrs.found h)

/-- Changes that touch no listing. -/
theorem of_holds (hr : r.Tidy) (hs : s.Tidy) (h : ∀ {k a}, s.Holds k a ↔ r.Holds k a) :
    Lengthens r s where
  longer {k a} ha := ⟨[], h.mpr (by simpa using ha)⟩
  found hfind := by
    simpa only [hs.findAssociation?_eq_some, h] using hr.findAssociation?_eq_some.mp hfind

theorem enters (h : Lengthens r s) (hc : r.Enters parent kind child) :
    s.Enters parent kind child := by
  obtain ⟨k, a, hfind, ha, hmem⟩ := hc
  obtain ⟨more, hmore⟩ := h.longer ha
  exact ⟨k, _, h.found hfind, hmore, List.mem_append_left _ hmem⟩

end Lengthens

section associate

variable (hr : r.Tidy) (hrange : r.ownRange.first ≤ r.ownRange.last)
  (h : r.associate parent kind child = .ok (s, k, changed))
include hr hrange h

/-- The record that a child is listed in was found for its parent and kind, or it is new. -/
theorem findAssociation?_of_associate :
    r.findAssociation? parent kind r.ownRange = some k ∨
      (changed = true ∧ r.findAssociation? parent kind r.ownRange = none ∧
        ∀ b, s.Holds k b → b = ⟨child.container, kind, parent, [child]⟩) := by
  rcases associate_eq_ok h with ⟨hfind, -⟩ | ⟨hfind, hchanged, -⟩
  · exact .inl hfind
  obtain ⟨-, b, hb, hparent, hkind, -, -, -, hholds⟩ := associate_relisted hr hrange h
  have hnone {a : Association} (ha : r.Holds k a) : ¬ (a.container = parent ∧ a.kind = kind) :=
    hr.findAssociation?_eq_none hfind ha
  refine .inr ⟨hchanged, hfind, fun b' hb' => ?_⟩
  have hb' := (hholds k b').mp hb'
  rw [if_pos rfl] at hb'
  subst hb'
  rcases hb with hb | ⟨ha, -, rfl⟩ | ⟨-, rfl⟩
  · exact absurd ⟨hparent, hkind⟩ (hnone hb)
  · exact absurd ⟨hparent, hkind⟩ (hnone ha)
  · rfl

theorem associate_lengthens : Lengthens r s := by
  obtain ⟨hrs, b, hb, hparent, hkind, -, -, -, hholds⟩ := associate_relisted hr hrange h
  refine ⟨fun {j a} ha => ?_, fun {parent' kind' j} hfind => ?_⟩
  · by_cases hjk : j = k
    · subst hjk
      have hnew := (hholds j b).mpr (by simp)
      rcases hb with hb | ⟨ha', -, rfl⟩ | ⟨hfree, -⟩
      · exact ⟨[], by simpa [ha.inj hb] using hnew⟩
      · obtain rfl := ha.inj ha'
        exact ⟨[child], hnew⟩
      · simp [ha.get] at hfree
    · exact ⟨[], (hholds j _).mpr (by simpa [hjk] using ha)⟩
  · obtain ⟨⟨a, ha, hparent', hkind'⟩, hmin⟩ := hr.findAssociation?_eq_some.mp hfind
    have hsame {i : RecordHandle} {a' : Association} (hi : s.Holds i a')
        (hp : a'.container = parent') (hk : a'.kind = kind') : j ≤ i := by
      have hi := (hholds i a').mp hi
      split_ifs at hi with hik
      · subst hik hi
        rcases hb with hb | ⟨hb, -, rfl⟩ | ⟨hfree, rfl⟩
        · exact hmin i a' hb hp hk
        · exact hmin i _ hb hp hk
        · -- a new record is written only if the parent has none for the kind
          rcases findAssociation?_of_associate hr hrange h with hfound | ⟨-, hfound, -⟩
          · obtain ⟨⟨a', ha', -⟩, -⟩ := hr.findAssociation?_eq_some.mp hfound
            simp [ha'.get] at hfree
          · exact absurd ⟨hparent'.trans hp.symm, hkind'.trans hk.symm⟩
              (hr.findAssociation?_eq_none hfound ha)
      · exact hmin i a' hi hp hk
    refine hrs.tidy.findAssociation?_eq_some.mpr ⟨?_, fun i a' hi hp hk => hsame hi hp hk⟩
    by_cases hjk : j = k
    · subst hjk
      have hnew := (hholds j b).mpr (by simp)
      refine ⟨b, hnew, ?_⟩
      rcases hb with hb | ⟨ha', -, rfl⟩ | ⟨hfree, -⟩
      · obtain rfl := ha.inj hb
        exact ⟨hparent', hkind'⟩
      · obtain rfl := ha.inj ha'
        exact ⟨hparent', hkind'⟩
      · simp [ha.get] at hfree
    · exact ⟨a, (hholds j a).mpr (by simpa [hjk] using ha), hparent', hkind'⟩

/-- Listing a child has it enter the record, unless it has already. -/
theorem associate_enters : (changed = true ↔ ¬ r.Enters parent kind child) ∧
    ∀ c, s.Enters parent kind c ↔ r.Enters parent kind c ∨ c = child := by
  have hfound := findAssociation?_associate hr hrange h
  have hlengthens := associate_lengthens hr hrange h
  have hplace := findAssociation?_of_associate hr hrange h
  obtain ⟨-, b, hb, hparent, hkind, hmem, hsame, hfresh, hholds⟩ := associate_relisted hr hrange h
  have hnew : s.Holds k b := (hholds k b).mpr (by simp)
  refine ⟨⟨fun hchanged hc => ?_, fun hc => ?_⟩, fun c => ⟨fun hc => ?_, fun hc => ?_⟩⟩
  · obtain ⟨j, a, hfind, ha, hmem'⟩ := hc
    obtain rfl := Option.some.inj ((hlengthens.found hfind).symm.trans hfound)
    exact hfresh hchanged ⟨a, ha, hmem'⟩
  · by_contra hchanged
    rw [Bool.not_eq_true] at hchanged
    rcases hplace with hfind | ⟨htrue, -⟩
    · exact hc ⟨k, b, hfind, hsame hchanged, hmem⟩
    · simp [hchanged] at htrue
  · obtain ⟨j, a, hfind, ha, hmem'⟩ := hc
    obtain rfl := Option.some.inj (hfind.symm.trans hfound)
    obtain rfl := ha.inj hnew
    rcases hplace with hfind | ⟨-, -, hone⟩
    · rcases hb with hb | ⟨hb, -, rfl⟩ | ⟨hfree, -⟩
      · exact .inl ⟨j, a, hfind, hb, hmem'⟩
      · rcases List.mem_append.mp hmem' with hmem' | hmem'
        · exact .inl ⟨j, _, hfind, hb, hmem'⟩
        · exact .inr (List.mem_singleton.mp hmem')
      · obtain ⟨⟨a', ha', -⟩, -⟩ := hr.findAssociation?_eq_some.mp hfind
        simp [ha'.get] at hfree
    · obtain rfl := hone a hnew
      exact .inr (List.mem_singleton.mp hmem')
  · rcases hc with hc | rfl
    · exact hlengthens.enters hc
    · exact ⟨k, b, hfound, hnew, hmem⟩

end associate

/-- Listing a child that is not listed in a record that has room for it. -/
theorem associate_of_found (hfind : r.findAssociation? parent kind r.ownRange = some k)
    (ha : r.Holds k a) (hnew : child ∉ a.children)
    (hroom : a.children.length ≠ Association.maxChildren) :
    r.associate parent kind child = .ok (r.put k (.listing k (a.adding child)), k, true) := by
  have hput : r.putAssociation k 0 (a.adding child) = r.put k (.listing k (a.adding child)) := by
    simp only [putAssociation_eq, ha.get]
    rfl
  have hadd : r.addChild k child = .ok (r.put k (.listing k (a.adding child)), true) := by
    simp only [addChild, association_of_holds ha, bind, Except.bind, if_neg hnew, if_neg hroom,
      pure, Except.pure]
    rw [← hput]
    rfl
  simp only [associate, hfind, hadd, Except.map]

/-- Listing a child under a parent that has no record for the kind. -/
theorem associate_of_none (hfind : r.findAssociation? parent kind r.ownRange = none)
    (hslot : r.slot? .own RecordHandle.terminator = some k) : r.associate parent kind child =
      .ok (r.put k (.listing k ⟨child.container, kind, parent, [child]⟩), k, true) := by
  simp only [associate, hfind, createAssociation_eq, hslot, Except.map]

/-- Children are listed one after another, each of them for the first time. -/
inductive ListsAll (parent : Entity) (kind : UInt8) : Repository → List Entity → Repository → Prop
  | nil {r : Repository} : ListsAll parent kind r [] r
  | cons {r s t : Repository} {k : RecordHandle} {c : Entity} {cs : List Entity}
      (h : r.associate parent kind c = .ok (s, k, true)) (hrest : ListsAll parent kind s cs t) :
      ListsAll parent kind r (c :: cs) t

/-- None of them has been listed before. -/
theorem ListsAll.not_enters (h : ListsAll parent kind r es s) (hr : r.Tidy)
    (hrange : r.ownRange.first ≤ r.ownRange.last) (hc : child ∈ es) :
    ¬ r.Enters parent kind child := by
  induction h with
  | nil => simp at hc
  | cons h hrest ih =>
    rcases List.mem_cons.mp hc with rfl | hc
    · exact (associate_enters hr hrange h).1.mp rfl
    · have hrs := (associate_relisted hr hrange h).1
      exact mt (associate_lengthens hr hrange h).enters
        (ih hrs.tidy (by rw [hrs.ownRange]; exact hrange) hc)

/-- Repositories that hold the same associations and differ in nothing else. -/
theorem Relisted.eq_of_holds (hr : r.Tidy) (hrs : Relisted r s)
    (h : ∀ k a, s.Holds k a ↔ r.Holds k a) : s = r := by
  refine ext_get? hrs.ownRange hrs.hostRange fun k => Option.ext fun record => ?_
  by_cases hout : r.ownRange.contains k = false ∨ record.type ≠ .entityAssociation
  · exact hrs.others k record hout
  · simp only [not_or, Bool.not_eq_false, ne_eq, not_not] at hout
    constructor
    · intro hget
      obtain ⟨a, ha⟩ := hrs.tidy k record hget (hrs.ownRange ▸ hout.1) hout.2
      rw [((h k a).mp ha).get, ← ha.get, hget]
    · intro hget
      obtain ⟨a, ha⟩ := hr k record hget hout.1 hout.2
      rw [((h k a).mpr ha).get, ← ha.get, hget]

theorem Relisted.symm (hr : r.Tidy) (hrs : Relisted r s) : Relisted s r where
  ownRange := hrs.ownRange.symm
  hostRange := hrs.hostRange.symm
  tidy := hr
  others k record hout := (hrs.others k record (hrs.ownRange ▸ hout)).symm

/-- Removing an association record. -/
theorem erase_relisted (hr : r.Tidy) (ha : r.Holds k a) : Relisted r (r.erase k) ∧
    ∀ j b, (r.erase k).Holds j b ↔ j ≠ k ∧ r.Holds j b := by
  have hedited := relisted_of_edit (s := r.erase k) hr rfl rfl
    (fun j a => if j = k then none else some a) (fun j a b ha hb => ?_) (fun j b hb => ?_)
    fun j hj => ?_
  · refine hedited.imp_right fun hholds j b => ?_
    rw [hholds]
    constructor
    · rintro ⟨b', hb, hkept⟩
      split_ifs at hkept with hjk
      exact ⟨hjk, Option.some.inj hkept ▸ hb⟩
    · rintro ⟨hjk, hb⟩
      exact ⟨b, hb, if_neg hjk⟩
  · split_ifs at hb
    exact Option.some.inj hb ▸ ha.proper
  · rw [get?_erase]
    split_ifs
    · rfl
    · exact hb.get
  · rw [get?_erase, if_neg]
    rintro rfl
    exact hj a ha

/-- Children that have been taken out of the end of a record can be listed again. -/
theorem listsAll_of_behind (hr : r.Tidy)
    (hfind : r.findAssociation? parent kind r.ownRange = some k)
    {container : UInt16} {front : List Entity} (hfront : front ≠ [])
    (hheld : r.Holds k ⟨container, kind, parent, front ++ es⟩) (hrs : Relisted r s)
    (hholds : ∀ j b, s.Holds j b ↔
      if j = k then b = ⟨container, kind, parent, front⟩ else r.Holds j b) :
    ListsAll parent kind s es r := by
  induction es generalizing front s with
  | nil =>
    obtain rfl : s = r := hrs.eq_of_holds hr fun j b => by
      rw [hholds]
      split_ifs with hjk
      · subst hjk
        rw [List.append_nil] at hheld
        exact ⟨fun hb => hb ▸ hheld, fun hb => hb.inj hheld⟩
      · rfl
    exact .nil
  | cons c es ih =>
    have hs : s.Holds k ⟨container, kind, parent, front⟩ := (hholds k _).mpr (by simp)
    have hfound : s.findAssociation? parent kind s.ownRange = some k := by
      refine hs.findAssociation? hrs.tidy fun j b hjk hb hp hk => ?_
      rw [hholds, if_neg hjk] at hb
      exact (hr.findAssociation?_eq_some.mp hfind).2 j b hb hp hk
    have hnew : c ∉ front := fun hc =>
      (List.nodup_append.mp hheld.proper.nodup).2.2 c hc c List.mem_cons_self rfl
    have hroom : front.length ≠ Association.maxChildren := by
      have := hheld.proper.fits
      simp only [List.length_append, List.length_cons] at this
      omega
    refine .cons (associate_of_found hfound hs hnew hroom) ?_
    have hproper := hs.proper.adding hnew hroom
    obtain ⟨hst, hputs⟩ := put_relisted hrs.tidy hs.own hproper (.inr ⟨_, hs⟩)
    have hfront : front ++ [c] ≠ [] := by simp
    refine ih hfront (by simpa using hheld) (hrs.trans hst) fun j b => ?_
    rw [hputs, hholds]
    split_ifs <;> rfl

/-- Children of a parent that has no record for the kind are listed in a new one. -/
theorem listsAll_of_none (hr : r.Tidy) (hrange : r.ownRange.first ≤ r.ownRange.last)
    (hfind : r.findAssociation? parent kind r.ownRange = none)
    (hslot : r.slot? .own RecordHandle.terminator = some k)
    (hproper : (⟨child.container, kind, parent, child :: es⟩ : Association).Proper) :
    let s := r.put k (.listing k ⟨child.container, kind, parent, child :: es⟩)
    ListsAll parent kind r (child :: es) s ∧
      s.Holds k ⟨child.container, kind, parent, child :: es⟩ ∧
      s.findAssociation? parent kind s.ownRange = some k := by
  intro s
  obtain ⟨hin, hfree⟩ := slot?_spec .own hrange hslot
  obtain ⟨hrs, hholds⟩ := put_relisted hr hin hproper (.inl hfree)
  have hs : s.Holds k ⟨child.container, kind, parent, child :: es⟩ :=
    (hholds k _).mpr (by simp)
  have hfound : s.findAssociation? parent kind s.ownRange = some k := by
    refine hs.findAssociation? hrs.tidy fun j b hjk hb hp hk => ?_
    rw [hholds, if_neg hjk] at hb
    exact absurd ⟨hp, hk⟩ (hr.findAssociation?_eq_none hfind hb)
  have hone := Association.proper_single child.container kind parent child
  obtain ⟨hrt, hholds'⟩ := put_relisted hr hin hone (.inl hfree)
  have hfront : [child] ≠ [] := by simp
  refine ⟨.cons (associate_of_none hfind hslot) ?_, hs, hfound⟩
  refine listsAll_of_behind hrs.tidy hfound hfront hs ((hrs.symm hr).trans hrt) fun j b => ?_
  rw [hholds', hholds]
  split_ifs <;> rfl

/-- Where nothing goes but some children of one record, that record has lost them, and no other one
has lost anything. -/
theorem Shortens.holds_iff (h : Shortens r s)
    (hnames : ∀ j p c, s.Names j p c ↔ r.Names j p c ∧ ¬ (j = k ∧ c ∈ es)) (j : RecordHandle)
    (b : Association) : s.Holds j b ↔ ∃ a, r.Holds j a ∧ b.children ≠ [] ∧
      b = if j = k then a.less es else a := by
  have hchild {a : Association} (ha : r.Holds j a) (c : Entity) :
      c ∈ (if j = k then a.less es else a).children ↔ c ∈ a.children ∧ ¬ (j = k ∧ c ∈ es) := by
    split_ifs with hjk <;> simp [Association.less, hjk]
  have hleft {b : Association} (hb : s.Holds j b) :
      ∃ a, r.Holds j a ∧ b = if j = k then a.less es else a := by
    obtain ⟨a, ha, hsub, heq⟩ := h.within hb
    have hmem (c : Entity) : c ∈ b.children ↔ c ∈ a.children ∧ ¬ (j = k ∧ c ∈ es) := by
      constructor
      · intro hc
        obtain ⟨⟨a', ha', -, hc'⟩, hout⟩ := (hnames j b.container c).mp ⟨b, hb, rfl, hc⟩
        exact ⟨ha.inj ha' ▸ hc', hout⟩
      · rintro ⟨hc, hout⟩
        obtain ⟨b', hb', -, hc'⟩ := (hnames j a.container c).mpr ⟨⟨a, ha, rfl, hc⟩, hout⟩
        exact hb.inj hb' ▸ hc'
    refine ⟨a, ha, ?_⟩
    have hchildren : b.children = (if j = k then a.less es else a).children := by
      have hsub' : b.children.Sublist (if j = k then a.less es else a).children := by
        split_ifs with hjk
        · have hkept : b.children.filter (· ∉ es) = b.children :=
            List.filter_eq_self.mpr fun c hc => by simpa [hjk] using ((hmem c).mp hc).2
          exact hkept ▸ hsub.filter _
        · exact hsub
      have hnodup : (if j = k then a.less es else a).children.Nodup := by
        split_ifs
        · exact ha.proper.nodup.filter _
        · exact ha.proper.nodup
      refine hsub'.eq_of_length_le (List.Nodup.subperm hnodup fun c hc => ?_).length_le
      exact (hmem c).mpr ((hchild ha c).mp hc)
    rw [heq, hchildren]
    split_ifs <;> rfl
  constructor
  · intro hb
    obtain ⟨a, ha, heq⟩ := hleft hb
    exact ⟨a, ha, hb.proper.nonempty, heq⟩
  · rintro ⟨a, ha, hne, rfl⟩
    obtain ⟨c, hc⟩ := List.exists_mem_of_ne_nil _ hne
    obtain ⟨hc, hout⟩ := (hchild ha c).mp hc
    obtain ⟨b, hb, -⟩ := (hnames j a.container c).mpr ⟨⟨a, ha, rfl, hc⟩, hout⟩
    obtain ⟨a', ha', rfl⟩ := hleft hb
    exact ha.inj ha' ▸ hb

/-- A child that is left in the record its parent has for the kind is still listed there. -/
theorem Enters.less (hr : r.Tidy) (hs : s.Tidy)
    (hholds : ∀ j b, s.Holds j b ↔ ∃ a, r.Holds j a ∧ b.children ≠ [] ∧
      b = if j = k then a.less es else a) (hc : r.Enters parent kind child) (hout : child ∉ es) :
    s.Enters parent kind child := by
  obtain ⟨i, a, hfind, ha, hmem⟩ := hc
  obtain ⟨⟨a', ha', hparent, hkind⟩, hmin⟩ := hr.findAssociation?_eq_some.mp hfind
  obtain rfl := ha.inj ha'
  have hmem' : child ∈ (if i = k then a.less es else a).children := by
    split_ifs
    · simp [Association.less, hmem, hout]
    · exact hmem
  have hleft : s.Holds i (if i = k then a.less es else a) :=
    (hholds i _).mpr ⟨a, ha, List.ne_nil_of_mem hmem', rfl⟩
  refine ⟨i, _, hs.findAssociation?_eq_some.mpr ⟨⟨_, hleft, ?_, ?_⟩, fun j b hb hp hk => ?_⟩, hleft,
    hmem'⟩
  · rw [← hparent]
    split_ifs <;> rfl
  · rw [← hkind]
    split_ifs <;> rfl
  · -- a record that would be found before was there before
    obtain ⟨b', hb', -, rfl⟩ := (hholds j b).mp hb
    refine hmin j b' hb' ?_ ?_
    · rw [← hp]
      split_ifs <;> rfl
    · rw [← hk]
      split_ifs <;> rfl

/-- Some children are the last that a record lists, behind others. Or they are all it lists, and
listing the first of them without that record would give the same record. -/
inductive ListsLast (r : Repository) (k : RecordHandle) (parent : Entity) (kind : UInt8) :
    List Entity → Prop
  | behind {container : UInt16} {front es : List Entity} (hfront : front ≠ [])
      (hheld : r.Holds k ⟨container, kind, parent, front ++ es⟩) : ListsLast r k parent kind es
  | alone {s : Repository} {c : Entity} {es : List Entity}
      (hheld : r.Holds k ⟨c.container, kind, parent, c :: es⟩)
      (hagain : (r.erase k).associate parent kind c = .ok (s, k, true)) :
      ListsLast r k parent kind (c :: es)

/-- Children that have been taken out of a record which listed them last can be listed again. -/
theorem ListsLast.listsAll (h : ListsLast r k parent kind es) (hr : r.Tidy)
    (hrange : r.ownRange.first ≤ r.ownRange.last)
    (hfind : r.findAssociation? parent kind r.ownRange = some k) (hrs : Relisted r s)
    (hholds : ∀ j b, s.Holds j b ↔ ∃ a, r.Holds j a ∧ b.children ≠ [] ∧
      b = if j = k then a.less es else a) : ListsAll parent kind s es r := by
  have hother {j : RecordHandle} {b : Association} (hjk : j ≠ k) : s.Holds j b ↔ r.Holds j b := by
    simp only [hholds, if_neg hjk]
    exact ⟨fun ⟨_, ha, _, hb⟩ => hb ▸ ha, fun hb => ⟨b, hb, hb.proper.nonempty, rfl⟩⟩
  have hself {a b : Association} (ha : r.Holds k a) :
      s.Holds k b ↔ b.children ≠ [] ∧ b = a.less es := by
    simp only [hholds, if_pos]
    exact ⟨fun ⟨a', ha', hb⟩ => ha.inj ha' ▸ hb, fun hb => ⟨a, ha, hb⟩⟩
  cases h with
  | @behind container front _ hfront hheld =>
    refine listsAll_of_behind hr hfind hfront hheld hrs fun j b => ?_
    split_ifs with hjk
    · rw [hjk, hself hheld, Association.less, filter_not_mem_append hheld.proper.nodup]
      exact ⟨And.right, fun hb => ⟨hb ▸ hfront, hb⟩⟩
    · exact hother hjk
  | @alone s' c more hheld hagain =>
    have hgone (b : Association) : ¬ s.Holds k b := by
      rw [hself hheld]
      rintro ⟨hb, rfl⟩
      have hnodup : ([] ++ c :: more).Nodup := hheld.proper.nodup
      exact hb (filter_not_mem_append hnodup)
    obtain ⟨herased, hkept⟩ := erase_relisted hr hheld
    have herase : s = r.erase k := by
      refine ((herased.symm hr).trans hrs).eq_of_holds herased.tidy fun j b => ?_
      rw [hkept]
      by_cases hjk : j = k
      · exact ⟨fun hb => absurd (hjk ▸ hb) (hgone b), fun hb => absurd hjk hb.1⟩
      · rw [hother hjk, and_iff_right hjk]
    have hagain : s.associate parent kind c = .ok (s', k, true) := herase ▸ hagain
    obtain ⟨hst, b, hb, -, -, -, -, -, hholds'⟩ :=
      associate_relisted hrs.tidy (hrs.ownRange ▸ hrange) hagain
    obtain rfl : b = ⟨c.container, kind, parent, [c]⟩ := by
      rcases hb with hb | ⟨hb, -, -⟩ | ⟨-, rfl⟩
      · exact absurd hb (hgone b)
      · exact absurd hb (hgone _)
      · rfl
    have hfront : [c] ≠ [] := by simp
    refine .cons hagain (listsAll_of_behind hr hfind hfront hheld (hrs.trans hst) fun j b => ?_)
    rw [hholds']
    split_ifs with hjk
    · rfl
    · exact hother hjk

end Repository
end DescriptorExchange
