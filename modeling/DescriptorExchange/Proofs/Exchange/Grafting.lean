import DescriptorExchange.Proofs.Containment.Growth
import DescriptorExchange.Proofs.Exchange.Completing
import DescriptorExchange.Proofs.Repository.Extension

/-!
Merging the host's associations into the controller's own topology, and taking them back. The tree
and the association records say the same at every moment, and every part of them that is not the
controller's own is claimed by a merge, under the record it was listed in. So taking back what is
claimed takes back everything, and nothing else.
-/
namespace DescriptorExchange

open Repository Containment

variable {r₀ r s : Repository} {t₀ t t' : Containment} {claimed rest : Entity → RecordHandle → Prop}
  {k : RecordHandle} {parent child e : Entity} {kind : UInt8}

/-- The controller's own records and topology, before anything is merged into them. -/
structure Planted (r : Repository) (t : Containment) : Prop where
  ranges : r.ownRange.Apart r.hostRange
  tidy : r.Tidy
  own : ∀ {k record}, r.get? k = some record → r.ownRange.contains k = true
  forest : t.Forest
  ownNodes : t.Own
  mirror : ∀ p c, r.Lists r.ownRange p c ↔ t.Contains p c

/-- What has been merged into the controller's own records and topology is claimed: every node of
the host, and every listing that was not there from the start. -/
structure Grafted (r₀ : Repository) (t₀ : Containment) (r : Repository) (t : Containment)
    (claimed : Entity → RecordHandle → Prop) : Prop where
  repository : Extends r₀ r
  tree : Grows t₀ t
  mirror : ∀ p c, r.Lists r.ownRange p c ↔ t.Contains p c
  guests : ∀ {id n}, t.node? id = some n → t₀.issued ≤ id → ∃ k, claimed n.entity k
  listings : ∀ {k e id n}, r.ListedAt k e → t₀.node? id = some n → n.entity = e →
    r₀.ListedAt k e ∨ claimed e k

/-- Nothing that was there from the start is claimed. -/
def Harmless (r₀ : Repository) (claimed : Entity → RecordHandle → Prop) : Prop :=
  ∀ e k, claimed e k → r₀.ownRange.contains k = true ∧ ¬ r₀.ListedAt k e ∧
    ∀ label, r₀.label? k = some label → label.1 = .entityAssociation

theorem Planted.grafted (h : Planted r t) : Grafted r t r t fun _ _ => False where
  repository := .refl h.tidy h.own
  tree := .refl h.forest
  mirror := h.mirror
  guests hn hle := absurd (h.forest.issued hn) (Nat.not_lt.mpr hle)
  listings hk _ _ := .inl hk

namespace Grafted

theorem mono (h : Grafted r₀ t₀ r t claimed) (hsub : ∀ e k, claimed e k → rest e k) :
    Grafted r₀ t₀ r t rest where
  repository := h.repository
  tree := h.tree
  mirror := h.mirror
  guests hn hle := (h.guests hn hle).imp fun k => hsub _ k
  listings hk hn he := (h.listings hk hn he).imp_right (hsub _ _)

/-- Changes to a repository that touch no listing. -/
theorem congr (h : Grafted r₀ t₀ r t claimed) (hext : Extends r₀ s)
    (hholds : ∀ {k a}, s.Holds k a ↔ r.Holds k a) : Grafted r₀ t₀ s t claimed where
  repository := hext
  tree := h.tree
  mirror p c := by
    rw [← h.mirror, hext.tidy.lists_iff, h.repository.tidy.lists_iff]
    simp only [Names, hholds]
  guests := h.guests
  listings hk := h.listings (by simpa only [ListedAt, hholds] using hk)

/-- An entity that is new to the tree is new to the records, for both say the same. -/
theorem changed_of_created {node id : NodeId} {changed : Bool}
    (h : Grafted r₀ t₀ r t claimed) (hrange : r₀.ownRange.first ≤ r₀.ownRange.last)
    (hattach : t.attach node child .host = .ok (t', .created id))
    (hassociate : r.associate parent kind child = .ok (s, k, changed)) : changed = true := by
  obtain ⟨-, b, -, hparent, -, hmem, hsame, -, -⟩ :=
    associate_relisted h.repository.tidy (h.repository.ownRange ▸ hrange) hassociate
  obtain ⟨-, -, ⟨_, _, -, -, -, -, hplacement⟩ | ⟨hnew, -, -⟩⟩ := attach_eq_ok hattach
  · simp at hplacement
  by_contra hchanged
  obtain ⟨i, m, -, -, hm, -, -, -, hentity⟩ := (h.mirror parent child).mp
    (h.repository.tidy.lists_iff.mpr ⟨k, b, hsame (by simpa using hchanged), hparent, hmem⟩)
  exact findExact?_eq_none hnew hm hentity

/-- Attaching a child of the host and listing it under its parent, where either of them may have
been done before. -/
theorem merge {node : NodeId} {above : Node} {placement : Placement} {changed : Bool}
    (h : Grafted r₀ t₀ r t claimed) (hrange : r₀.ownRange.first ≤ r₀.ownRange.last)
    (habove : t.node? node = some above) (hattach : t.attach node child .host = .ok (t', placement))
    (hassociate : r.associate above.entity kind child = .ok (s, k, changed)) :
    Grafted r₀ t₀ s t' fun e j => claimed e j ∨ (changed = true ∧ e = child ∧ j = k) := by
  have hrange' : r.ownRange.first ≤ r.ownRange.last := h.repository.ownRange ▸ hrange
  obtain ⟨hrs, b, hb, hparent, hkind, hmem, hsame, -, hholds⟩ :=
    associate_relisted h.repository.tidy hrange' hassociate
  refine ⟨h.repository.associate hrange hassociate, h.tree.attach hattach, fun p c => ?_,
    fun {id n} hn hle => ?_, fun {j e id n} hk hn he => ?_⟩
  · rw [lists_associate h.repository.tidy hrange' hassociate,
      contains_attach h.tree.forest hattach habove, h.mirror]
  · obtain ⟨above', ha', ⟨_, _, -, -, -, rfl, -⟩ | ⟨hnew, rfl, rfl⟩⟩ := attach_eq_ok hattach
    · exact (h.guests hn hle).imp fun j => .inl
    · obtain rfl := Option.some.inj (habove.symm.trans ha')
      rcases node?_of_node?_under habove hn with ⟨rfl, rfl⟩ | ⟨m, hm, hentity, -⟩
      · exact ⟨k, .inr ⟨h.changed_of_created hrange hattach hassociate, rfl, rfl⟩⟩
      · rw [hentity]
        exact (h.guests hm hle).imp fun j => .inl
  · obtain ⟨a, ha, hmem'⟩ := hk
    have hold (hk : r.ListedAt j e) :
        r₀.ListedAt j e ∨ claimed e j ∨ (changed = true ∧ e = child ∧ j = k) :=
      (h.listings hk hn he).imp_right .inl
    have hj := (hholds j a).mp ha
    split_ifs at hj with hjk
    · subst hj hjk
      cases hchanged : changed with
      | false => exact hchanged ▸ hold ⟨a, hsame hchanged, hmem'⟩
      | true =>
        rcases hb with hb | ⟨ha', hnew, rfl⟩ | ⟨hfree, rfl⟩
        · exact hchanged ▸ hold ⟨a, hb, hmem'⟩
        · rcases List.mem_append.mp hmem' with hmem' | hmem'
          · exact hchanged ▸ hold ⟨_, ha', hmem'⟩
          · exact .inr (.inr ⟨rfl, List.mem_singleton.mp hmem', rfl⟩)
        · exact .inr (.inr ⟨rfl, List.mem_singleton.mp hmem', rfl⟩)
    · exact hold ⟨a, hj, hmem'⟩

/-- A listing that was made just now was not there from the start. -/
theorem harmless_merge {changed : Bool} (h : Grafted r₀ t₀ r t claimed)
    (hrange : r₀.ownRange.first ≤ r₀.ownRange.last)
    (hassociate : r.associate parent kind child = .ok (s, k, changed)) :
    Harmless r₀ fun e j => changed = true ∧ e = child ∧ j = k := by
  rintro e k ⟨hchanged, rfl, rfl⟩
  have hrange' : r.ownRange.first ≤ r.ownRange.last := h.repository.ownRange ▸ hrange
  obtain ⟨hrs, b, -, -, -, -, -, hfresh, hholds⟩ :=
    associate_relisted h.repository.tidy hrange' hassociate
  have hs : s.Holds k b := (hholds k b).mpr (by simp)
  have hin : r₀.ownRange.contains k = true := by
    rw [← h.repository.ownRange, ← hrs.ownRange]
    exact hs.own
  refine ⟨hin, fun hlisted => hfresh hchanged (h.repository.listedAt hlisted),
    fun label hlabel => ?_⟩
  by_contra htype
  obtain ⟨record, hget, htype', -⟩ := label?_eq_some.mp ((h.repository.others hin htype).mpr hlabel)
  have hget' := (hrs.others k record (.inr (htype' ▸ htype))).mpr hget
  obtain rfl : record = .listing k b := Option.some.inj (hget'.symm.trans hs.get)
  exact htype htype'.symm

/-- An entity of the controller's own topology is listed from the start, or the listing is claimed. -/
theorem names_own {id : NodeId} {n : Node} (h : Grafted r₀ t₀ r t claimed)
    (hk : r.Names k parent n.entity) (hn : t.node? id = some n) (hlt : id < t₀.issued) :
    r₀.Names k parent n.entity ∨ claimed n.entity k := by
  obtain ⟨n₀, hn₀⟩ := h.tree.old hn hlt
  obtain ⟨m, hm, hentity, -⟩ := h.tree.node? hn₀
  obtain rfl := Option.some.inj (hn.symm.trans hm)
  have hlisted := h.listings (listedAt_iff.mpr ⟨parent, hk⟩) hn₀ hentity.symm
  exact hlisted.imp_left fun hbase => h.repository.names_of_listedAt hbase hk

/-- There is nothing to take back of an entity the tree does not hold. -/
theorem unclaim_of_gone (h : Grafted r₀ t₀ r t claimed) (hgone : t.findExact? child = none)
    (hrest : ∀ e j, claimed e j → rest e j ∨ e = child) : Grafted r₀ t₀ r t rest where
  repository := h.repository
  tree := h.tree
  mirror := h.mirror
  guests hn hle := by
    obtain ⟨k, hk⟩ := h.guests hn hle
    exact ⟨k, (hrest _ _ hk).resolve_right (findExact?_eq_none hgone hn)⟩
  listings hk hn he := by
    obtain ⟨m, hm, hentity, -⟩ := h.tree.node? hn
    refine (h.listings hk hn he).imp_right fun hc => (hrest _ _ hc).resolve_right ?_
    exact he ▸ hentity ▸ findExact?_eq_none hgone hm

end Grafted

/-- Stripping entities takes all that names one of them off the records. -/
theorem stripAll_relisted (gone : List Entity) (hr : r.Tidy) :
    Relisted r (Exchange.stripAll r.ownRange gone r).1 ∧
      Shortens r (Exchange.stripAll r.ownRange gone r).1 ∧
      ∀ k p c, (Exchange.stripAll r.ownRange gone r).1.Names k p c ↔
        r.Names k p c ∧ p ∉ gone ∧ c ∉ gone := by
  induction gone generalizing r with
  | nil => exact ⟨.refl hr, .refl r, by simp [Exchange.stripAll]⟩
  | cons e gone ih =>
    have hrs := (strip_relisted hr e).1
    obtain ⟨hst, hshort, hnames⟩ := ih hrs.tidy
    rw [hrs.ownRange] at hst hshort hnames
    rw [Exchange.stripAll_cons]
    refine ⟨hrs.trans hst, (strip_shortens hr e).trans hshort, fun k p c => ?_⟩
    rw [hnames, names_strip hr]
    grind

/-- Stripping entities that no record of the base names. -/
theorem stripAll_extends (gone : List Entity) (h : Extends r₀ r)
    (hbase : ∀ e ∈ gone, ∀ {k a}, r₀.Holds k a → a.container ≠ e ∧ e ∉ a.children) :
    Extends r₀ (Exchange.stripAll r.ownRange gone r).1 := by
  induction gone generalizing r with
  | nil => exact h
  | cons e gone ih =>
    have hstrip := h.strip (hbase e List.mem_cons_self)
    have hgone := ih hstrip fun e' he' => hbase e' (List.mem_cons_of_mem _ he')
    rw [strip_ownRange] at hgone
    rwa [Exchange.stripAll_cons]

/-- No record of the base names an entity that goes with a node of the host. -/
theorem Planted.spares_detach {id : NodeId} {n : Node} (hbase : Planted r₀ t₀) (h : Grows t₀ t)
    (hn : t.node? id = some n) (hle : t₀.issued ≤ id) (e : Entity) (he : e ∈ (t.detach id).2)
    {k : RecordHandle} {a : Association} (ha : r₀.Holds k a) : a.container ≠ e ∧ e ∉ a.children := by
  have hguest {j : NodeId} {m : Node} (hm : t₀.node? j = some m) : m.entity ≠ e := by
    obtain ⟨i, m', hunder, hm', rfl⟩ := (mem_detach h.forest hn).mp he
    exact h.guest_entity_ne hbase.forest hm' (Nat.le_trans hle (hunder.le h.forest)) hm
  have hedge (c : Entity) (hc : c ∈ a.children) : a.container ≠ e ∧ c ≠ e := by
    obtain ⟨i, m, q, above, hm, -, habove, hcontainer, hc⟩ :=
      (hbase.mirror _ _).mp (hbase.tidy.lists_iff.mpr ⟨k, a, ha, rfl, hc⟩)
    exact ⟨hcontainer ▸ hguest habove, hc ▸ hguest hm⟩
  obtain ⟨c, hc⟩ := List.exists_mem_of_ne_nil _ ha.proper.nonempty
  exact ⟨(hedge c hc).1, fun he => (hedge e he).2 rfl⟩

namespace Grafted

/-- Taking back a node of the host takes everything below it along, in the tree and in the
records. -/
theorem unmerge_guest {id : NodeId} {n : Node} (hbase : Planted r₀ t₀)
    (h : Grafted r₀ t₀ r t claimed)
    (hn : t.node? id = some n) (horigin : n.origin = .host)
    (hrest : ∀ e j, claimed e j → rest e j ∨ e = n.entity) :
    Relisted r (Exchange.stripAll r.ownRange (t.detach id).2 r).1 ∧
      Grafted r₀ t₀ (Exchange.stripAll r.ownRange (t.detach id).2 r).1 (t.detach id).1 rest := by
  have hle : t₀.issued ≤ id := (h.tree.origin_eq_host hbase.ownNodes hn).mp horigin
  obtain ⟨hrs, -, hnames⟩ := stripAll_relisted (t.detach id).2 h.repository.tidy
  have hext := stripAll_extends (t.detach id).2 h.repository (hbase.spares_detach h.tree hn hle)
  refine ⟨hrs, hext, h.tree.detach hbase.forest hn hle, fun p c => ?_, fun {j m} hm hle' => ?_,
    fun {k e j m} hk hm he => ?_⟩
  · rw [hrs.tidy.lists_iff, h.tree.contains_detach hn hle, ← h.mirror, h.repository.tidy.lists_iff]
    simp only [hnames, exists_and_right]
  · rw [node?_detach_eq_some h.tree.forest hn] at hm
    obtain ⟨hout, m, hm, rfl⟩ := hm
    obtain ⟨k, hk⟩ := h.guests hm hle'
    refine ⟨k, (hrest _ _ hk).resolve_right fun heq => hout ?_⟩
    rw [h.tree.unique hn hle hm heq]
    exact .refl
  · obtain ⟨p, hp⟩ := listedAt_iff.mp hk
    have hlisted := listedAt_iff.mpr ⟨p, ((hnames k p e).mp hp).1⟩
    refine (h.listings hlisted hm he).imp_right fun hc => (hrest _ _ hc).resolve_right ?_
    exact he ▸ h.tree.guest_entity_ne hbase.forest hn hle hm

/-- Taking an entity of the controller's own out of a record that did not list it from the start.
Where it did, it still does. -/
theorem unmerge_own {id : NodeId} {n : Node} (hbase : Planted r₀ t₀) (h : Grafted r₀ t₀ r t claimed)
    (hn : t.node? id = some n) (horigin : n.origin ≠ .host) (hfresh : ¬ r₀.ListedAt k n.entity)
    (hrs : Relisted r s)
    (hholds : ∀ j b, s.Holds j b ↔
      ∃ a, r.Holds j a ∧ (if j = k then a.trim? n.entity else some a) = some b)
    (hrest : ∀ e j, claimed e j → rest e j ∨ (e = n.entity ∧ j = k)) : Grafted r₀ t₀ s t rest := by
  have hlt : id < t₀.issued :=
    Nat.lt_of_not_le fun hle => horigin ((h.tree.origin_eq_host hbase.ownNodes hn).mpr hle)
  have hnames {j : RecordHandle} {p c : Entity} := names_of_trim (j := j) (p := p) (c := c) hholds
  have hguest {i : NodeId} {m : Node} (hm : t.node? i = some m) (hle : t₀.issued ≤ i) :
      m.entity ≠ n.entity := by
    intro heq
    have hid := h.tree.unique hm hle hn heq.symm
    exact absurd hle (Nat.not_le.mpr (hid ▸ hlt))
  refine ⟨h.repository.trim hrs hfresh hholds, h.tree, fun p c => ?_, fun {i m} hm hle => ?_,
    fun {j e i m} hk hm he => ?_⟩
  · rw [← h.mirror, hrs.tidy.lists_iff, h.repository.tidy.lists_iff]
    simp only [hnames]
    refine ⟨fun ⟨j, hj, _⟩ => ⟨j, hj⟩, fun ⟨j, hj⟩ => ?_⟩
    by_cases hjk : j = k ∧ c = n.entity
    · -- the topology has the entity under this parent, so the base lists it, and in another record
      obtain ⟨rfl, rfl⟩ := hjk
      have hedge := (h.mirror p n.entity).mp (h.repository.tidy.lists_iff.mpr ⟨j, hj⟩)
      have hbased := (hbase.mirror _ _).mpr (h.tree.contains_base hbase.forest hedge hguest)
      obtain ⟨i, hi⟩ := hbase.tidy.lists_iff.mp hbased
      refine ⟨i, h.repository.names hi, fun heq => hfresh ?_⟩
      exact heq.1 ▸ listedAt_iff.mpr ⟨p, hi⟩
    · exact ⟨j, hj, hjk⟩
  · obtain ⟨j, hj⟩ := h.guests hm hle
    exact ⟨j, (hrest _ _ hj).resolve_right fun h => hguest hm hle h.1⟩
  · rw [listedAt_iff] at hk
    obtain ⟨p, hk⟩ := hk
    obtain ⟨hk, hne⟩ := hnames.mp hk
    refine (h.listings (listedAt_iff.mpr ⟨p, hk⟩) hm he).imp_right
      fun hc => (hrest _ _ hc).resolve_right ?_
    exact fun h => hne ⟨h.2, h.1⟩

/-- Once nothing is claimed the topology and the listings are what they were at the start. -/
theorem restored (h : Grafted r₀ t₀ r t fun _ _ => False) :
    t.nodes = t₀.nodes ∧ ∀ k a, r.Holds k a ↔ r₀.Holds k a := by
  have hold {id : NodeId} {n : Node} (hn : t.node? id = some n) : id < t₀.issued :=
    Nat.lt_of_not_le fun hle => (h.guests hn hle).elim fun _ => False.elim
  have hnodes := h.tree.nodes_eq hold
  have hlisted {k : RecordHandle} {a : Association} {e : Entity} (ha : r.Holds k a)
      (he : e ∈ a.children) :
      r₀.ListedAt k e := by
    obtain ⟨id, n, -, -, hn, -, -, -, hentity⟩ :=
      (h.mirror a.container e).mp (h.repository.tidy.lists_iff.mpr ⟨k, a, ha, rfl, he⟩)
    have hn₀ : t₀.node? id = some n := by
      rw [node?, ← hnodes]
      exact hn
    exact (h.listings ⟨a, ha, he⟩ hn₀ hentity).resolve_right not_false
  have hback {k : RecordHandle} {a b : Association} (ha : r₀.Holds k a) (hb : r.Holds k b) :
      b = a := by
    obtain ⟨more, hmore⟩ := h.repository.kept ha
    obtain rfl := hb.inj hmore
    have hnil : more = [] := by
      apply List.eq_nil_iff_forall_not_mem.mpr
      intro e he
      obtain ⟨a', ha', he'⟩ := hlisted hmore (List.mem_append_right _ he)
      obtain rfl := ha.inj ha'
      exact (List.nodup_append.mp hmore.proper.nodup).2.2 e he' e he rfl
    simp [hnil]
  refine ⟨hnodes, fun k a => ⟨fun ha => ?_, fun ha => ?_⟩⟩
  · obtain ⟨e, he⟩ := List.exists_mem_of_ne_nil _ ha.proper.nonempty
    obtain ⟨b, hb, -⟩ := hlisted ha he
    exact hback hb ha ▸ hb
  · obtain ⟨more, hmore⟩ := h.repository.kept ha
    exact hback ha hmore ▸ hmore

end Grafted
end DescriptorExchange
