import DescriptorExchange.Proofs.Repository.InPlace
import DescriptorExchange.Proofs.Sorted

/-!
The controller's own association records. They are written and edited by the repository alone, so
each of them reads back as the association it was written from, and an edit of the record is an
edit of that association.
-/
namespace DescriptorExchange

/-- The record that lists an association under a handle. -/
def Record.listing (k : RecordHandle) (a : Association) : Record :=
  { type := .entityAssociation, origin := .own, bytes := encodeRecord k a }

namespace Association

/-- Some children, no more than a record can list and none of them twice. -/
structure Proper (a : Association) : Prop where
  nonempty : a.children ≠ []
  fits : a.children.length ≤ maxChildren
  nodup : a.children.Nodup

/-- An association that has lost a child. -/
def without (a : Association) (e : Entity) : Association :=
  { a with children := a.children.filter (· ≠ e) }

/-- An association that has gained a child. -/
def adding (a : Association) (e : Entity) : Association := { a with children := a.children ++ [e] }

variable {a : Association} {e : Entity}

@[simp] theorem mem_children_without {c : Entity} :
    c ∈ (a.without e).children ↔ c ∈ a.children ∧ c ≠ e := by simp [without]

theorem without_of_not_mem (he : e ∉ a.children) : a.without e = a := by
  have hfilter : a.children.filter (· ≠ e) = a.children :=
    List.filter_eq_self.mpr fun c hc => by simpa using fun h : c = e => he (h ▸ hc)
  simp only [without, hfilter]

theorem Proper.adding (ha : a.Proper) (hnew : e ∉ a.children)
    (hroom : a.children.length ≠ maxChildren) : (a.adding e).Proper := by
  refine ⟨by simp [Association.adding], ?_, ?_⟩
  · simp only [Association.adding, List.length_append, List.length_singleton]
    exact Nat.lt_of_le_of_ne ha.fits hroom
  · simpa [Association.adding, List.nodup_append] using ⟨ha.nodup, fun c hc h => hnew (h ▸ hc)⟩

theorem Proper.without (ha : a.Proper) (hleft : (a.without e).children ≠ []) :
    (a.without e).Proper :=
  ⟨hleft, (List.length_filter_le ..).trans ha.fits, ha.nodup.filter _⟩

theorem proper_single (containerId : UInt16) (kind : UInt8) (parent child : Entity) :
    (⟨containerId, kind, parent, [child]⟩ : Association).Proper :=
  ⟨List.cons_ne_nil child [], Nat.le_add_left 1 254, List.nodup_singleton child⟩

end Association

namespace Repository

variable {r s : Repository} {j k : RecordHandle} {a b : Association}

/-- A record of the controller's own lists an association. -/
structure Holds (r : Repository) (k : RecordHandle) (a : Association) : Prop where
  own : r.ownRange.contains k = true
  proper : a.Proper
  get : r.get? k = some (.listing k a)

/-- The record under a handle lists a child under its container. -/
def Names (r : Repository) (k : RecordHandle) (parent child : Entity) : Prop :=
  ∃ a, r.Holds k a ∧ a.container = parent ∧ child ∈ a.children

/-- The record under a handle lists a child, whatever its container. -/
def ListedAt (r : Repository) (k : RecordHandle) (e : Entity) : Prop :=
  ∃ a, r.Holds k a ∧ e ∈ a.children

theorem listedAt_iff {e : Entity} : r.ListedAt k e ↔ ∃ parent, r.Names k parent e := by
  simp [ListedAt, Names]

/-- Every association record of the controller's own stands as it was written. -/
def Tidy (r : Repository) : Prop :=
  ∀ k record, r.get? k = some record → r.ownRange.contains k = true →
    record.type = .entityAssociation → ∃ a, r.Holds k a

/-- Some association record of a range has one entity as its container and lists the other. -/
def Lists (r : Repository) (range : HandleRange) (parent child : Entity) : Prop :=
  ∃ entry ∈ r.associations range, entry.2.2.container = parent ∧ child ∈ entry.2.2.children

theorem decodeRecord_listing (ha : a.Proper) :
    decodeRecord Association (Record.listing k a).bytes = .ok (writtenHeader k 0 a, a) :=
  Association.decodeRecord_encodeRecordAs ha.fits k 0

theorem Holds.inj (ha : r.Holds k a) (hb : r.Holds k b) : a = b := by
  have hread := decodeRecord_listing (k := k) ha.proper
  have heq : Record.listing k a = .listing k b := Option.some.inj (ha.get.symm.trans hb.get)
  rw [heq, decodeRecord_listing hb.proper] at hread
  exact (Prod.mk.inj (Except.ok.inj hread)).2.symm

theorem Holds.congr (ha : r.Holds k a) (hrange : s.ownRange = r.ownRange)
    (hget : s.get? k = r.get? k) : s.Holds k a :=
  ⟨hrange ▸ ha.own, ha.proper, hget ▸ ha.get⟩

theorem Tidy.mem_associations (hr : r.Tidy) {header : RecordHeader} :
    (k, header, a) ∈ r.associations r.ownRange ↔ r.Holds k a ∧ header = writtenHeader k 0 a := by
  rw [Repository.mem_associations]
  constructor
  · rintro ⟨record, hget, hin, htype, hd⟩
    obtain ⟨b, hb⟩ := hr k record hget hin htype
    obtain rfl : record = .listing k b := Option.some.inj (hget.symm.trans hb.get)
    rw [decodeRecord_listing hb.proper] at hd
    obtain ⟨rfl, rfl⟩ := Prod.mk.inj (Except.ok.inj hd)
    exact ⟨hb, rfl⟩
  · rintro ⟨ha, rfl⟩
    exact ⟨_, ha.get, ha.own, rfl, decodeRecord_listing ha.proper⟩

theorem Tidy.lists_iff (hr : r.Tidy) {p c : Entity} :
    r.Lists r.ownRange p c ↔ ∃ k, r.Names k p c := by
  constructor
  · rintro ⟨⟨k, header, a⟩, hmem, hparent, hchild⟩
    exact ⟨k, a, (hr.mem_associations.mp hmem).1, hparent, hchild⟩
  · rintro ⟨k, a, ha, hparent, hchild⟩
    exact ⟨(k, writtenHeader k 0 a, a), hr.mem_associations.mpr ⟨ha, rfl⟩, hparent, hchild⟩

/-- The record found for a container and a kind is the first of the readable ones. -/
theorem findAssociation?_eq_some_iff {range : HandleRange} {parent : Entity} {kind : UInt8} :
    r.findAssociation? parent kind range = some k ↔
      (∃ header a, (k, header, a) ∈ r.associations range ∧ a.container = parent ∧ a.kind = kind) ∧
        ∀ j header b, (j, header, b) ∈ r.associations range → b.container = parent →
          b.kind = kind → k ≤ j := by
  unfold findAssociation?
  rw [Sorted.find?_key_eq_some_iff (r.associations_pairwise range)]
  simp only [Bool.and_eq_true, decide_eq_true_eq, Prod.exists, Prod.forall, and_imp]

/-- A new record for a parent and a kind takes the next free handle and lists the child alone. -/
theorem createAssociation_eq (r : Repository) (parent : Entity) (kind : UInt8) (child : Entity) :
    r.createAssociation parent kind child =
      match r.slot? .own RecordHandle.terminator with
      | none => .error (.noFreeHandle r.ownRange)
      | some k => .ok (r.put k (.listing k ⟨child.container, kind, parent, [child]⟩), k) := by
  obtain ⟨body, -, hsplit, -⟩ := decodeRecord_eq_ok.mp (decodeRecord_listing
    (k := RecordHandle.terminator) (Association.proper_single child.container kind parent child))
  change RecordHeader.split (encodeRecord RecordHandle.terminator _) = _ at hsplit
  have hset (k : RecordHandle) := setRecordHandle_encodeRecordAs k RecordHandle.terminator 0
    (⟨child.container, kind, parent, [child]⟩ : Association)
  simp only [createAssociation, insert_eq, hsplit, Except.mapError, bind, Except.bind,
    writtenHeader]
  cases r.slot? .own RecordHandle.terminator with
  | none => rfl
  | some k =>
    unfold encodeRecord
    simp only [hset]
    rfl

/-- A new association record takes a free handle of the controller's own. -/
theorem createAssociation_eq_ok {parent child : Entity} {kind : UInt8}
    (hrange : r.ownRange.first ≤ r.ownRange.last)
    (h : r.createAssociation parent kind child = .ok (s, k)) :
    r.ownRange.contains k = true ∧ r.get? k = none ∧
      s = r.put k (.listing k ⟨child.container, kind, parent, [child]⟩) := by
  rw [createAssociation_eq] at h
  cases hslot : r.slot? .own RecordHandle.terminator with
  | none => simp [hslot] at h
  | some j =>
    simp only [hslot] at h
    obtain ⟨rfl, rfl⟩ := Prod.mk.inj (Except.ok.inj h)
    obtain ⟨hin, hfree⟩ := slot?_spec .own hrange hslot
    exact ⟨hin, hfree, rfl⟩

/-- Nothing has changed but association records of the controller's own, and these are still tidy.
-/
structure Relisted (r s : Repository) : Prop where
  ownRange : s.ownRange = r.ownRange
  hostRange : s.hostRange = r.hostRange
  tidy : s.Tidy
  others : ∀ k record, r.ownRange.contains k = false ∨ record.type ≠ .entityAssociation →
    (s.get? k = some record ↔ r.get? k = some record)

theorem Relisted.refl (hr : r.Tidy) : Relisted r r := ⟨rfl, rfl, hr, fun _ _ _ => Iff.rfl⟩

theorem Relisted.trans {t : Repository} (hrs : Relisted r s) (hst : Relisted s t) :
    Relisted r t where
  ownRange := hst.ownRange.trans hrs.ownRange
  hostRange := hst.hostRange.trans hrs.hostRange
  tidy := hst.tidy
  others k record h := (hst.others k record (hrs.ownRange ▸ h)).trans (hrs.others k record h)

/-- Records edited as associations: each one held is replaced by what becomes of it, or goes away.
-/
theorem relisted_of_edit (hr : r.Tidy) (hown : s.ownRange = r.ownRange)
    (hhost : s.hostRange = r.hostRange)
    (edit : RecordHandle → Association → Option Association)
    (hproper : ∀ k a b, r.Holds k a → edit k a = some b → b.Proper)
    (hheld : ∀ k a, r.Holds k a → s.get? k = (edit k a).map (.listing k))
    (hother : ∀ k, (∀ a, ¬ r.Holds k a) → s.get? k = r.get? k) :
    Relisted r s ∧ ∀ k b, s.Holds k b ↔ ∃ a, r.Holds k a ∧ edit k a = some b := by
  have hedit (k : RecordHandle) (a b : Association) (ha : r.Holds k a) (hb : edit k a = some b) :
      s.Holds k b :=
    ⟨hown ▸ ha.own, hproper k a b ha hb, by rw [hheld k a ha, hb]; rfl⟩
  have hback (k : RecordHandle) (record : Record) (hget : s.get? k = some record)
      (hin : r.ownRange.contains k = true) (htype : record.type = .entityAssociation) :
      ∃ a b, r.Holds k a ∧ edit k a = some b ∧ record = .listing k b := by
    by_cases hk : ∃ a, r.Holds k a
    · obtain ⟨a, ha⟩ := hk
      rw [hheld k a ha] at hget
      obtain ⟨b, hb, rfl⟩ := Option.map_eq_some_iff.mp hget
      exact ⟨a, b, ha, hb, rfl⟩
    · rw [hother k (not_exists.mp hk)] at hget
      exact absurd (hr k record hget hin htype) hk
  refine ⟨⟨hown, hhost, fun k record hget hin htype => ?_, fun k record hout => ?_⟩,
    fun k b => ⟨fun hb => ?_, ?_⟩⟩
  · obtain ⟨a, b, ha, hb, -⟩ := hback k record hget (hown ▸ hin) htype
    exact ⟨b, hedit k a b ha hb⟩
  · by_cases hk : ∃ a, r.Holds k a
    · obtain ⟨a, ha⟩ := hk
      have htype : record.type ≠ .entityAssociation := hout.resolve_left (by simp [ha.own])
      have hne (b : Association) : record ≠ .listing k b := fun h => htype (h ▸ rfl)
      rw [hheld k a ha, ha.get]
      constructor
      · intro h
        obtain ⟨b, -, hb⟩ := Option.map_eq_some_iff.mp h
        exact absurd hb.symm (hne b)
      · intro h
        exact absurd (Option.some.inj h).symm (hne a)
    · rw [hother k (not_exists.mp hk)]
  · obtain ⟨a, b', ha, hb', heq⟩ := hback k _ hb.get (hown ▸ hb.own) rfl
    exact ⟨a, ha, hb.inj (hedit k a b' ha hb') ▸ hb'⟩
  · rintro ⟨a, ha, hb⟩
    exact hedit k a b ha hb

theorem get?_putAssociation_self (ha : r.Holds k a) (b : Association) :
    (r.putAssociation k 0 b).get? k = some (.listing k b) := by
  simp only [putAssociation_eq, ha.get, get?_put_self]
  rfl

theorem association_of_holds (ha : r.Holds k a) :
    r.association k = .ok (writtenHeader k 0 a, a) := by
  simp only [association, ha.get, decodeRecord_listing ha.proper]
  rfl

end Repository
end DescriptorExchange
