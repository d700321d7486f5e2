import DescriptorExchange.Proofs.Containment.Paths
import DescriptorExchange.Proofs.Splits

/-!
What the inventory is told, as a chronicle of the tree. Every notice belongs to one change of the tree:
a node of the host that came into it, or one that left it with everything below. Between the trees of
two states lie just the changes that were told, in their order.
-/
namespace DescriptorExchange

open Containment

variable {names : EntityNames} {root : String} {t u : Containment} {i : NodeId} {n : Node}

/-- A notice, the node it is about, and the trees before and after the change it tells of. -/
structure Episode where
  before : Containment
  node : NodeId
  notice : InventoryNotice
  after : Containment

namespace Episode

variable {s : Episode} {path : String}

def creates (s : Episode) (i : NodeId) : Bool := (s.before.node? i).isNone && (s.after.node? i).isSome

def removes (s : Episode) (i : NodeId) : Bool := (s.before.node? i).isSome && (s.after.node? i).isNone

/-- A node of the host has come into the tree, under an id that no node has had. -/
structure Attaches (names : EntityNames) (root : String) (s : Episode) (path : String) (n : Node) :
    Prop where
  notice : s.notice = .attached path n.entity
  number : s.node = s.before.issued
  issued : s.after.issued = s.before.issued + 1
  node : s.after.node? s.node = some n
  origin : n.origin = .host
  path : s.after.path? names root s.node = some path
  others : ∀ j, j ≠ s.node → s.after.placed? j = s.before.placed? j

/-- A node of the host has left the tree with everything below it, all of which came from the host. -/
structure Detaches (names : EntityNames) (root : String) (s : Episode) (path : String) (n : Node) :
    Prop where
  notice : s.notice = .detached path n.entity
  issued : s.after.issued = s.before.issued
  node : s.before.node? s.node = some n
  path : s.before.path? names root s.node = some path
  below : ∀ {j}, s.before.Under s.node j → s.after.node? j = none ∧
    ∃ m, s.before.node? j = some m ∧ m.origin = .host
  others : ∀ j, ¬ s.before.Under s.node j → s.after.placed? j = s.before.placed? j

structure Faithful (names : EntityNames) (root : String) (s : Episode) : Prop where
  before : s.before.Forest
  after : s.after.Forest
  change : ∃ path n, s.Attaches names root path n ∨ s.Detaches names root path n

theorem creates_eq_true :
    s.creates i = true ↔ s.before.node? i = none ∧ (s.after.node? i).isSome := by
  simp [creates]

theorem removes_eq_true :
    s.removes i = true ↔ (s.before.node? i).isSome ∧ s.after.node? i = none := by
  simp [removes]

theorem Attaches.creates_iff (h : s.Attaches names root path n) (hs : s.before.Forest) :
    s.creates i = true ↔ i = s.node := by
  rw [creates_eq_true]
  constructor
  · rintro ⟨hnone, hsome⟩
    by_contra hne
    rw [isSome_node?_of_placed? (h.others i hne), hnone] at hsome
    simp at hsome
  · rintro rfl
    refine ⟨Option.eq_none_iff_forall_ne_some.mpr fun m hm => ?_, by rw [h.node]; rfl⟩
    exact Nat.lt_irrefl _ (h.number ▸ hs.issued hm)

theorem Attaches.not_removes (h : s.Attaches names root path n) : ¬ s.removes i = true := by
  rw [removes_eq_true]
  rintro ⟨hsome, hnone⟩
  by_cases hi : i = s.node
  · rw [hi, h.node] at hnone
    simp at hnone
  · rw [← isSome_node?_of_placed? (h.others i hi), hnone] at hsome
    simp at hsome

theorem Detaches.removes_iff (h : s.Detaches names root path n) :
    s.removes i = true ↔ s.before.Under s.node i := by
  rw [removes_eq_true]
  constructor
  · rintro ⟨hsome, hnone⟩
    by_contra hunder
    rw [← isSome_node?_of_placed? (h.others i hunder), hnone] at hsome
    simp at hsome
  · intro hunder
    obtain ⟨hgone, m, hm, -⟩ := h.below hunder
    exact ⟨by rw [hm]; rfl, hgone⟩

theorem Detaches.not_creates (h : s.Detaches names root path n) : ¬ s.creates i = true := by
  rw [creates_eq_true]
  rintro ⟨hnone, hsome⟩
  by_cases hunder : s.before.Under s.node i
  · rw [(h.below hunder).1] at hsome
    simp at hsome
  · rw [isSome_node?_of_placed? (h.others i hunder), hnone] at hsome
    simp at hsome

namespace Faithful

theorem issued_le (h : s.Faithful names root) : s.before.issued ≤ s.after.issued := by
  obtain ⟨path, n, hattaches | hdetaches⟩ := h.change
  · rw [hattaches.issued]
    exact Nat.le_succ _
  · exact Nat.le_of_eq hdetaches.issued.symm

/-- A change creates the nodes whose ids it hands out. -/
theorem creates_iff (h : s.Faithful names root) :
    s.creates i = true ↔ s.before.issued ≤ i ∧ i < s.after.issued := by
  obtain ⟨path, n, hattaches | hdetaches⟩ := h.change
  · rw [hattaches.creates_iff h.before, hattaches.issued, hattaches.number]
    constructor
    · rintro rfl
      exact ⟨Nat.le_refl _, Nat.lt_succ_self _⟩
    · intro hi
      exact Nat.le_antisymm (Nat.le_of_lt_succ hi.2) hi.1
  · have hnone : ¬ s.creates i = true := hdetaches.not_creates
    rw [hdetaches.issued]
    exact ⟨fun hcreates => absurd hcreates hnone, fun hlt => absurd hlt.2 (Nat.not_lt.mpr hlt.1)⟩

/-- What is told to be attached is the node created, and there is no other. -/
theorem creates_iff_attached (h : s.Faithful names root) :
    s.creates i = true ↔ i = s.node ∧ ∃ path e, s.notice = .attached path e := by
  obtain ⟨path, n, hattaches | hdetaches⟩ := h.change
  · rw [hattaches.creates_iff h.before]
    exact (and_iff_left ⟨path, n.entity, hattaches.notice⟩).symm
  · have hnone : ¬ s.creates i = true := hdetaches.not_creates
    simp [hnone, hdetaches.notice]

/-- What is told to be detached is the topmost of the nodes removed: they lie below it. -/
theorem removes_iff_detached (h : s.Faithful names root) :
    s.removes i = true ↔ s.before.Under s.node i ∧ ∃ path e, s.notice = .detached path e := by
  obtain ⟨path, n, hattaches | hdetaches⟩ := h.change
  · have hnone : ¬ s.removes i = true := hattaches.not_removes
    simp [hnone, hattaches.notice]
  · rw [hdetaches.removes_iff]
    exact (and_iff_left ⟨path, n.entity, hdetaches.notice⟩).symm

/-- A node that is there afterwards has come in, or it was there under the same path. -/
theorem carried (h : s.Faithful names root) (hn : s.after.node? i = some n) :
    (s.node = i ∧ ∃ path, s.notice = .attached path n.entity ∧
      s.after.path? names root i = some path) ∨
    ∃ m, s.before.node? i = some m ∧ m.placed = n.placed ∧
      s.after.path? names root i = s.before.path? names root i := by
  obtain ⟨path, m, hattaches | hdetaches⟩ := h.change
  · by_cases hi : i = s.node
    · subst hi
      obtain rfl := Option.some.inj (hn.symm.trans hattaches.node)
      exact .inl ⟨rfl, path, hattaches.notice, hattaches.path⟩
    · right
      have hinside : s.before.Inside s.after := by
        refine inside_of_placed? fun j hj => (hattaches.others j ?_).symm
        rintro rfl
        obtain ⟨m', hm'⟩ := Option.isSome_iff_exists.mp hj
        exact Nat.lt_irrefl _ (hattaches.number ▸ h.before.issued hm')
      have hsame := hattaches.others i hi
      rw [placed?, placed?, hn, Option.map_some, eq_comm, Option.map_eq_some_iff] at hsame
      obtain ⟨m', hm', hplaced⟩ := hsame
      exact ⟨m', hm', hplaced, hinside.path? h.before h.after names root hm'⟩
  · right
    have hinside : s.after.Inside s.before := by
      refine inside_of_placed? fun j hj => hdetaches.others j fun hunder => ?_
      rw [(hdetaches.below hunder).1] at hj
      simp at hj
    obtain ⟨m', hm', hplaced⟩ := hinside hn
    exact ⟨m', hm', hplaced, (hinside.path? h.after h.before names root hn).symm⟩

end Faithful

/-- Attaching a new node of the host, told with the path it has then. -/
theorem faithful_under {parent : NodeId} {above : Node} {e : Entity} (ht : t.Forest)
    (ha : t.node? parent = some above)
    (hpath : (t.under parent above e .host).path? names root t.issued = some path) :
    (⟨t, t.issued, .attached path e, t.under parent above e .host⟩ : Episode).Faithful names root := by
  refine ⟨ht, ht.under ha, path, ⟨e, .host, some parent, []⟩, .inl ?_⟩
  exact ⟨rfl, rfl, rfl, node?_under_issued ht ha, rfl, hpath, fun j hj => placed?_under ha hj⟩

/-- Detaching a node of the host, told with the path it has had. -/
theorem faithful_detach (ht : t.Forest) (hn : t.node? i = some n)
    (hguests : ∀ {j m}, t.Under i j → t.node? j = some m → m.origin = .host)
    (hpath : t.path? names root i = some path) :
    (⟨t, i, .detached path n.entity, (t.detach i).1⟩ : Episode).Faithful names root := by
  refine ⟨ht, detach_forest ht hn, path, n, .inr ⟨rfl, t.detach_issued i, hn, hpath, ?_, ?_⟩⟩
  · intro j hunder
    obtain ⟨m, hm⟩ := hunder.node? ht hn
    exact ⟨node?_detach_of_under ht hn hunder, m, hm, hguests hunder hm⟩
  · exact fun j hj => placed?_detach ht hn hj

end Episode

/-- Each node of the host that was ever there is told of once when it comes and, if it goes, once when
it goes, for itself or for a node above it; and what is detached was attached under the same path. -/
structure Balanced (t : Containment) (book : List Episode) (u : Containment) : Prop where
  attached : ∀ s ∈ book, ∀ i, s.creates i = true ↔ i = s.node ∧ ∃ path e, s.notice = .attached path e
  detached : ∀ s ∈ book, ∀ i,
    s.removes i = true ↔ s.before.Under s.node i ∧ ∃ path e, s.notice = .detached path e
  created : ∀ i, book.countP (·.creates i) = if t.issued ≤ i ∧ i < u.issued then 1 else 0
  removed : ∀ i, book.countP (·.removes i) =
    if (t.issued ≤ i ∧ i < u.issued) ∧ u.node? i = none then 1 else 0
  paths : ∀ front s back path e, book = front ++ s :: back → s.notice = .detached path e →
    ∃ s' ∈ front, s'.node = s.node ∧ s'.notice = .attached path e

/-- The changes told of lead from one tree to another. -/
inductive Chronicle (names : EntityNames) (root : String) (t : Containment) :
    List Episode → Containment → Prop
  | nil : Chronicle names root t [] t
  | snoc {book : List Episode} {s : Episode} (h : Chronicle names root t book s.before)
      (hs : s.Faithful names root) : Chronicle names root t (book ++ [s]) s.after

namespace Chronicle

variable {v : Containment} {book more front back : List Episode} {s : Episode}

theorem append (h : Chronicle names root t book u) (hmore : Chronicle names root u more v) :
    Chronicle names root t (book ++ more) v := by
  induction hmore with
  | nil => rwa [List.append_nil]
  | snoc _ hs ih =>
    rw [← List.append_assoc]
    exact ih.snoc hs

/-- Up to each of its episodes a chronicle is one. -/
theorem upTo (h : Chronicle names root t (front ++ s :: back) u) :
    Chronicle names root t front s.before ∧ s.Faithful names root := by
  generalize hbook : front ++ s :: back = book at h
  induction h generalizing back with
  | nil => simp at hbook
  | @snoc book last h hs ih =>
    rcases Splits.concat_eq_iff.mp hbook.symm with ⟨rfl, rfl, -⟩ | ⟨rest, hrest, -⟩
    · exact ⟨h, hs⟩
    · exact ih hrest.symm

theorem issued_le (h : Chronicle names root t book u) : t.issued ≤ u.issued := by
  induction h with
  | nil => exact Nat.le_refl _
  | snoc _ hs ih => exact Nat.le_trans ih hs.issued_le

/-- The ids handed out on the way are those of the nodes created, one by one. -/
theorem countP_creates (h : Chronicle names root t book u) (i : NodeId) :
    book.countP (·.creates i) = if t.issued ≤ i ∧ i < u.issued then 1 else 0 := by
  induction h with
  | nil =>
    rw [if_neg fun hi => Nat.not_lt.mpr hi.1 hi.2]
    rfl
  | @snoc book s h hs ih =>
    have hle := h.issued_le
    have hle' := hs.issued_le
    rw [List.countP_append, ih, List.countP_singleton]
    simp only [hs.creates_iff]
    by_cases hold : i < s.before.issued
    · have hnew : ¬ s.before.issued ≤ i := Nat.not_le.mpr hold
      simp [hold, hnew, Nat.lt_of_lt_of_le hold hle']
    · have hle'' : t.issued ≤ i := Nat.le_trans hle (Nat.not_lt.mp hold)
      simp [hold, Nat.not_lt.mp hold, hle'']

/-- A node that was there or has been created is there or has been removed, and each but once. -/
theorem countP_removes (h : Chronicle names root t book u) (i : NodeId) :
    book.countP (·.removes i) + (u.node? i).isSome.toNat =
      book.countP (·.creates i) + (t.node? i).isSome.toNat := by
  induction h with
  | nil => rfl
  | @snoc book s h hs ih =>
    have hone : (s.removes i).toNat + (s.after.node? i).isSome.toNat =
        (s.creates i).toNat + (s.before.node? i).isSome.toNat := by
      unfold Episode.removes Episode.creates
      cases s.before.node? i <;> cases s.after.node? i <;> rfl
    have hsingle (p : Episode → Bool) : [s].countP p = (p s).toNat := by
      cases hp : p s <;> simp [hp]
    rw [List.countP_append, List.countP_append, hsingle, hsingle]
    omega

/-- A node of the host has the path that its attachment was told with. -/
theorem told (h : Chronicle names root t book u) (ht : t.Own) (hn : u.node? i = some n)
    (horigin : n.origin = .host) : ∃ s ∈ book, s.node = i ∧ ∃ path,
      s.notice = .attached path n.entity ∧ u.path? names root i = some path := by
  induction h generalizing n with
  | nil => simp [ht hn] at horigin
  | @snoc book s h hs ih =>
    rcases hs.carried hn with ⟨hnode, path, hnotice, hpath⟩ | ⟨m, hm, hplaced, hsame⟩
    · exact ⟨s, by simp, hnode, path, hnotice, hpath⟩
    · obtain ⟨hentity, horigin', -⟩ := Node.placed_inj hplaced
      obtain ⟨s', hs', hnode, path, hnotice, hpath⟩ := ih hm (horigin'.trans horigin)
      exact ⟨s', List.mem_append_left _ hs', hnode, path, hentity ▸ hnotice, hsame.trans hpath⟩

/-- What is told to leave was told to come, under the same path. -/
theorem attached_before (h : Chronicle names root t (front ++ s :: back) u) (ht : t.Own)
    {path : String} {e : Entity} (hnotice : s.notice = .detached path e) :
    ∃ s' ∈ front, s'.node = s.node ∧ s'.notice = .attached path e := by
  obtain ⟨hfront, hs⟩ := h.upTo
  obtain ⟨path', n, hattaches | hdetaches⟩ := hs.change
  · simpa using hattaches.notice.symm.trans hnotice
  · obtain ⟨rfl, rfl⟩ := InventoryNotice.detached.inj (hdetaches.notice.symm.trans hnotice)
    obtain ⟨-, m, hm, horigin⟩ := hdetaches.below .refl
    obtain rfl := Option.some.inj (hdetaches.node.symm.trans hm)
    obtain ⟨s', hs', hnode, path, htold, hpath⟩ := hfront.told ht hm horigin
    obtain rfl := Option.some.inj (hdetaches.path.symm.trans hpath)
    exact ⟨s', hs', hnode, htold⟩

theorem balanced (h : Chronicle names root t book u) (ht : t.Forest) (hown : t.Own)
    (hgrows : Grows t u) : Balanced t book u where
  attached s hs i := by
    obtain ⟨front, back, rfl⟩ := List.append_of_mem hs
    exact h.upTo.2.creates_iff_attached
  detached s hs i := by
    obtain ⟨front, back, rfl⟩ := List.append_of_mem hs
    exact h.upTo.2.removes_iff_detached
  created := h.countP_creates
  removed i := by
    have hsum := h.countP_removes i
    rw [h.countP_creates] at hsum
    by_cases hold : i < t.issued
    · rw [hgrows.isSome_node?_of_lt hold, if_neg fun hi => Nat.not_lt.mpr hi.1 hold] at hsum
      rw [if_neg fun hi => Nat.not_lt.mpr hi.1.1 hold]
      omega
    have hle : t.issued ≤ i := Nat.not_lt.mp hold
    rw [ht.node?_of_le hle] at hsum
    by_cases hnew : i < u.issued
    · rw [if_pos ⟨hle, hnew⟩] at hsum
      cases hu : u.node? i <;> simp_all
    · rw [hgrows.forest.node?_of_le (Nat.not_lt.mp hnew), if_neg fun hi => hnew hi.2] at hsum
      rw [if_neg fun hi => hnew hi.1.2]
      simpa using hsum
  paths front s back path e hbook := by
    subst hbook
    exact h.attached_before hown

end Chronicle
end DescriptorExchange
