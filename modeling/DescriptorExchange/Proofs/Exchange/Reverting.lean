import DescriptorExchange.Proofs.Exchange.Bringing

/-!
A merge and the removal of the record right after it, from any tree and any records. All is as it was
before the merge just if the host has the children that are contributed for itself: none of them was a
node of the host already, no record of the controller names one that the tree did not hold, and the
record that they are listed in was not empty.
-/
namespace DescriptorExchange

open Repository Containment

namespace Exchange

variable {x y z : Exchange} {k : RecordHandle} {child : Entity} {es fs : List Entity}

section reverting

/-- Stripping entities prunes the records of all of them. -/
theorem reading?_stripAll (es : List Entity) (r : Repository) (j : RecordHandle) :
    (stripAll r.ownRange es r).1.reading? j = (r.reading? j).bind (Association.prune? es []) := by
  induction es generalizing r with
  | nil => simp [stripAll]
  | cons e es ih =>
    have hrest := ih (r.strip e r.ownRange).1
    rw [strip_ownRange, reading?_strip, Option.bind_assoc] at hrest
    simp only [Association.prune?_bind] at hrest
    rwa [stripAll_cons]

/-- The merges of some children that a record lists have been taken back, whatever else the records
list. -/
structure Reverted (k : RecordHandle) (es : List Entity) (x y : Exchange) : Prop where
  settings : y.settings = x.settings
  ownRange : y.repository.ownRange = x.repository.ownRange
  tree : x.tree.Uproots es y.tree
  grows : ∀ {base : Containment}, base.Forest → (∀ e ∈ es, ¬ base.Guest e) →
    Grows base x.tree → Grows base y.tree
  reads : ∃ gone, (∀ e, e ∈ gone ↔ x.tree.Loses es e) ∧ ∀ j, y.repository.reading? j =
    (x.repository.reading? j).bind (Association.prune? gone (if j = k then es else []))

namespace Reverted

/-- No node of the host holds the child, and only the listing goes. -/
theorem of_own (hx : x.tree.Forest) (hsettings : y.settings = x.settings)
    (hown : y.repository.ownRange = x.repository.ownRange) (htree : y.tree = x.tree)
    (hguest : ¬ x.tree.Guest child) (hreads : ∀ j, y.repository.reading? j =
      (x.repository.reading? j).bind (Association.prune? [] (if j = k then [child] else []))) :
    Reverted k [child] x y where
  settings := hsettings
  ownRange := hown
  tree := by
    refine htree.symm ▸ .of_none hx fun j => ?_
    rintro ⟨i, n, hn, horigin, he, -⟩
    exact hguest ⟨i, n, hn, List.mem_singleton.mp he, horigin⟩
  grows _ _ h := htree.symm ▸ h
  reads := by
    refine ⟨[], fun e => iff_of_false List.not_mem_nil ?_, hreads⟩
    rintro ⟨j, m, ⟨i, n, hn, horigin, he, -⟩, -⟩
    exact hguest ⟨i, n, hn, List.mem_singleton.mp he, horigin⟩

/-- The one node that holds the child is of the host, and goes with what lies below it. -/
theorem of_guest {n : Node} {id : NodeId} (hx : x.tree.Forest) (hunique : x.tree.Untwinned)
    (hn : x.tree.node? id = some n) (hhost : n.origin = .host) (hsettings : y.settings = x.settings)
    (htree : y.tree = (x.tree.detach id).1) (hrepository : y.repository =
      (stripAll x.repository.ownRange (x.tree.detach id).2 x.repository).1) :
    Reverted k [n.entity] x y := by
  obtain ⟨huprooted, huproots⟩ :=
    uproots_detach_of_unique hx hn hhost fun hm he => hunique.eq hn hm he
  have hlost (e : Entity) : e ∈ (x.tree.detach id).2 ↔ x.tree.Loses [n.entity] e := by
    simp only [mem_detach hx hn, Loses, huprooted]
  refine ⟨hsettings, ?_, htree ▸ huproots, fun {base} hbase hguest hgrows => ?_,
    (x.tree.detach id).2, hlost, fun j => ?_⟩
  · rw [hrepository, (stripAll_ranges ..).1]
  · refine htree ▸ hgrows.detach hbase hn (Nat.le_of_not_lt fun hlt => ?_)
    obtain ⟨m, hm⟩ := hgrows.old hn hlt
    obtain ⟨n', hn', hentity, horigin, -⟩ := hgrows.node? hm
    obtain rfl := Option.some.inj (hn.symm.trans hn')
    exact hguest n.entity (by simp) ⟨id, m, hm, hentity.symm, horigin.symm.trans hhost⟩
  · rw [hrepository, reading?_stripAll]
    refine Option.bind_congr fun a _ => ?_
    have htaken : (if j = k then [n.entity] else []) ⊆ (x.tree.detach id).2 := by
      split_ifs
      · exact List.cons_subset.mpr
          ⟨(hlost _).mpr ⟨id, n, (huprooted id).mpr .refl, hn, rfl⟩, List.nil_subset _⟩
      · exact List.nil_subset _
    exact (Association.prune?_of_subset htaken).symm

theorem trans (hx : x.tree.Forest) (hxy : Reverted k es x y) (hyz : Reverted k fs y z) :
    Reverted k (es ++ fs) x z where
  settings := hyz.settings.trans hxy.settings
  ownRange := hyz.ownRange.trans hxy.ownRange
  tree := hxy.tree.trans hx hyz.tree
  grows hbase hguest h :=
    hyz.grows hbase (fun e he => hguest e (List.mem_append_right _ he))
      (hxy.grows hbase (fun e he => hguest e (List.mem_append_left _ he)) h)
  reads := by
    obtain ⟨gone, hgone, hreads⟩ := hxy.reads
    obtain ⟨more, hmore, hreads'⟩ := hyz.reads
    refine ⟨gone ++ more, fun e => ?_, fun j => ?_⟩
    · rw [List.mem_append, hgone, hmore, hxy.tree.loses_append hx]
    · rw [hreads', hreads, Option.bind_assoc]
      simp only [Association.prune?_bind]
      split_ifs <;> rfl

/-- A child that was in the tree is there still, or is listed nowhere any more. -/
theorem settled {e : Entity} (h : Reverted k es x y)
    (hlisted : x.tree.Has e ∨ ∀ a, x.repository.reading? k = some a → e ∉ a.children) :
    y.tree.Has e ∨ ∀ a, y.repository.reading? k = some a → e ∉ a.children := by
  obtain ⟨gone, hgone, hreads⟩ := h.reads
  by_cases hlost : x.tree.Loses es e
  · refine .inr fun b hb hmem => ?_
    rw [hreads] at hb
    obtain ⟨a, -, hprune⟩ := Option.bind_eq_some_iff.mp hb
    exact ((Association.mem_of_prune? hprune).mp hmem).2.1 ((hgone e).mpr hlost)
  · rcases hlisted with ⟨j, n, hn, rfl⟩ | hnot
    · obtain ⟨m, hm, hplaced⟩ := h.tree.node?_of_kept hn fun hj => hlost ⟨j, n, hj, hn, rfl⟩
      exact .inl ⟨j, m, hm, (Node.placed_inj hplaced).1⟩
    · refine .inr fun b hb hmem => ?_
      rw [hreads] at hb
      obtain ⟨a, ha, hprune⟩ := Option.bind_eq_some_iff.mp hb
      exact hnot a ha ((Association.mem_of_prune? hprune).mp hmem).1

end Reverted

theorem unmerge_reverted {touched : List RecordHandle} (hx : x.tree.Forest)
    (hunique : x.tree.Untwinned) (hown : x.settings.ownRange = x.repository.ownRange)
    (hlisted : x.tree.Has child ∨ ∀ a, x.repository.reading? k = some a → child ∉ a.children)
    (h : x.unmerge k child = (y, .ok touched)) : Reverted k [child] x y := by
  have hnothing (hread : ∀ a, x.repository.reading? k = some a → child ∉ a.children)
      (j : RecordHandle) : x.repository.reading? j = (x.repository.reading? j).bind
        (Association.prune? [] (if j = k then [child] else [])) := by
    cases ha : x.repository.reading? j with
    | none => rfl
    | some a =>
      refine (Association.prune?_of_spared (by simp) fun c hc => ⟨by simp, ?_⟩).symm
      split_ifs with hj
      · rintro hmem
        obtain rfl := List.mem_singleton.mp hmem
        exact hread a (hj ▸ ha) hc
      · simp
  rcases x.unmerge_cases k child with
    ⟨hgone, heq⟩ | ⟨id, notices, touched, hfind, horigin, -, heq⟩ | ⟨id, hfind, horigin, hrecord⟩
  · obtain ⟨rfl, -⟩ := Prod.mk.inj (heq.symm.trans h)
    have hmissing := findExact?_eq_none_iff.mp hgone
    refine .of_own hx rfl rfl rfl ?_ (hnothing (hlisted.resolve_left hmissing))
    rintro ⟨j, n, hn, he, -⟩
    exact hmissing ⟨j, n, hn, he⟩
  · obtain ⟨n, hn, rfl⟩ := findExact?_eq_some hfind
    have hhost : n.origin = .host := by simpa [origin?, hn] using horigin
    rw [hown] at heq
    obtain ⟨rfl, -⟩ := Prod.mk.inj (heq.symm.trans h)
    exact .of_guest hx hunique hn hhost rfl rfl rfl
  · obtain ⟨n, hn, rfl⟩ := findExact?_eq_some hfind
    have hguest : ¬ x.tree.Guest n.entity := by
      rintro ⟨j, m, hm, he, hhost⟩
      obtain rfl := hunique.eq hn hm he
      obtain rfl := Option.some.inj (hn.symm.trans hm)
      exact horigin (by simp [origin?, hn, hhost])
    rcases hrecord with ⟨hnone, heq⟩ | ⟨record, -, heq⟩
    · obtain ⟨rfl, -⟩ := Prod.mk.inj (heq.symm.trans h)
      exact .of_own hx rfl rfl rfl hguest (hnothing (by simp [reading?_of_get?_none hnone]))
    · rw [heq] at h
      cases hremove : x.repository.removeChild k n.entity with
      | error e => simp [hremove] at h
      | ok result =>
        obtain ⟨s, changed⟩ := result
        simp only [hremove] at h
        obtain ⟨rfl, -⟩ := Prod.mk.inj h
        exact .of_own hx rfl (removeChild_ranges hremove).1 rfl hguest
          (reading?_of_removeChild hremove)

/-- The merges of children are taken back one after another. -/
theorem unmergeAll_reverted {touched : List RecordHandle} (hx : x.tree.Forest)
    (hunique : x.tree.Untwinned) (hown : x.settings.ownRange = x.repository.ownRange)
    (hlisted : ∀ e ∈ es,
      x.tree.Has e ∨ ∀ a, x.repository.reading? k = some a → e ∉ a.children)
    (h : unmergeAll k es x = (y, .ok touched)) : Reverted k es x y := by
  induction es generalizing x touched with
  | nil =>
    obtain ⟨rfl, -⟩ := Prod.mk.inj h
    exact ⟨rfl, rfl, .of_none hx fun j => by simp [Uprooted], fun _ _ h => h, [],
      by simp [Loses, Uprooted], by simp⟩
  | cons child es ih =>
    unfold unmergeAll at h
    split at h
    next => simp at h
    next z touched' hchild =>
      have hfirst := unmerge_reverted hx hunique hown (hlisted child List.mem_cons_self) hchild
      split at h
      next => simp at h
      next more hrest =>
        obtain ⟨rfl, -⟩ := Prod.mk.inj h
        -- a child of the rest may have gone with the first one, and then with all its listings
        refine hfirst.trans hx (ih hfirst.tree.forest (hfirst.tree.untwinned hunique) ?_
          (fun e he => hfirst.settled (hlisted e (List.mem_cons_of_mem _ he))) hrest)
        rw [hfirst.settings, hfirst.ownRange, hown]

/-- A merge that is noted is taken back when its record is removed. -/
theorem forget_reverted {h : RecordHandle} {parent : Entity} (hx : x.tree.Forest)
    (hunique : x.tree.Untwinned) (hown : x.settings.ownRange = x.repository.ownRange)
    (himport : x.imports[h]? = some (.merged parent es k)) (hlegible : x.repository.Legible k)
    (hhas : ∀ e ∈ es, x.tree.Has e) : ∃ y touched, x.forget [h] = (y, .ok touched) ∧
      y.imports = x.imports.erase h ∧ Reverted k es x y := by
  let rest : Exchange := { x with imports := x.imports.erase h }
  obtain ⟨y, touched, hundone, htends⟩ := unmergeAll_tends es rest hlegible
  obtain ⟨hsettings, hrange, htree, hgrows, hreads⟩ :=
    unmergeAll_reverted (x := rest) hx hunique hown (fun e he => .inl (hhas e he)) hundone
  exact ⟨y, Std.ExtTreeSet.ofList (touched ++ []),
    by simp [forget, dropImports, dropImport, himport, rest, hundone], htends.imports,
    ⟨hsettings, hrange, htree, hgrows, hreads⟩⟩

end reverting

section restoring

variable {a : Association} {h : RecordHandle} {i : NodeId} {parent : Entity} {kind : UInt8}
  {new : List (Entity × RecordHandle)}

/-- The host has the contributed children for itself. -/
structure Apart (x : Exchange) (new : List (Entity × RecordHandle)) : Prop where
  own : ∀ {e k}, (e, k) ∈ new → ¬ x.tree.Guest e
  unnamed : ∀ {e k}, (e, k) ∈ new → ¬ x.tree.Has e → ∀ {j a}, x.repository.reading? j = some a →
    a.container ≠ e ∧ e ∉ a.children
  filled : ∀ {e k a}, (e, k) ∈ new → x.repository.reading? k = some a → a.children ≠ []

/-- Of the contributed children those that the tree did not hold go, if none of the others is a node of
the host. -/
theorem BringsIn.loses_iff (h : BringsIn i parent kind x y new) (hx : x.tree.Forest)
    (hguest : ∀ {e k}, (e, k) ∈ new → ¬ x.tree.Guest e) {e : Entity} :
    y.tree.Loses (new.map Prod.fst) e ↔ (∃ k, (e, k) ∈ new) ∧ ¬ x.tree.Has e := by
  have hgrows : Grows x.tree y.tree := h.grows (.refl hx)
  have hmem {e : Entity} : e ∈ new.map Prod.fst ↔ ∃ k, (e, k) ∈ new := by simp
  have hfresh {j : NodeId} {m : Node} (hm : y.tree.node? j = some m) (hhost : m.origin = .host)
      (he : m.entity ∈ new.map Prod.fst) : ¬ x.tree.Has m.entity := by
    rcases h.gains.fresh hm with ⟨n, hn, hplaced⟩ | ⟨-, hnew, -⟩
    · obtain ⟨hentity, horigin, -⟩ := Node.placed_inj hplaced
      obtain ⟨k, hk⟩ := hmem.mp he
      exact absurd ⟨j, n, hn, hentity.symm, horigin.symm.trans hhost⟩ (hguest hk)
    · exact hnew
  have hleaf : ∀ e ∈ new.map Prod.fst, y.tree.Guest e → ∀ d, ¬ y.tree.Contains e d := by
    rintro e he ⟨j, m, hm, rfl, hhost⟩ d ⟨c, n, q, above, hn, hparent, habove, hentity, -⟩
    have hnew := hfresh hm hhost he
    rcases h.gains.fresh habove with ⟨n₀, hn₀, hplaced⟩ | ⟨hlate, -, -, -, hup⟩
    · exact hnew ⟨q, n₀, hn₀, (Node.placed_inj hplaced).1.symm.trans hentity⟩
    rcases h.gains.fresh hn with ⟨n₀, hn₀, hplaced⟩ | ⟨-, -, -, -, hup'⟩
    · obtain ⟨-, above₀, habove₀, -⟩ :=
        hx.parent hn₀ ((Node.placed_inj hplaced).2.2.symm.trans hparent)
      exact absurd (hx.issued habove₀) (Nat.not_lt.mpr hlate)
    · obtain rfl := Option.some.inj (hup'.symm.trans hparent)
      exact absurd (h.forest.parent habove hup).1 (Nat.lt_irrefl _)
  rw [hgrows.loses_iff hleaf, hmem, and_congr_right_iff]
  intro hk
  constructor
  · rintro ⟨j, m, hm, rfl, hhost⟩
    exact hfresh hm hhost (hmem.mpr hk)
  · intro hnew
    obtain ⟨j, m, hm, rfl⟩ := h.gains.all e (hmem.mpr hk)
    rcases h.gains.fresh hm with ⟨n, hn, hplaced⟩ | ⟨-, -, -, hhost, -⟩
    · exact absurd ⟨j, n, hn, (Node.placed_inj hplaced).1.symm⟩ hnew
    · exact ⟨j, m, hm, rfl, hhost⟩

/-- The tree is as it was if none of the contributed children was a node of the host. -/
theorem BringsIn.nodes_iff (hxy : BringsIn i parent kind x y new) (hx : x.tree.Forest)
    (hyz : Reverted k (new.map Prod.fst) y z) : (∀ j, z.tree.node? j = x.tree.node? j) ↔
      ∀ {e k}, (e, k) ∈ new → ¬ x.tree.Guest e := by
  constructor
  · rintro hsame e k he ⟨j, n, hn, rfl, hhost⟩
    obtain ⟨m, hm, hplaced⟩ := hxy.gains.kept hn
    obtain ⟨hentity, horigin, -⟩ := Node.placed_inj hplaced
    have huprooted : y.tree.Uprooted (new.map Prod.fst) j :=
      ⟨j, m, hm, horigin.trans hhost, List.mem_map.mpr ⟨_, he, hentity.symm⟩, .refl⟩
    have hgone := hyz.tree.gone huprooted
    simp [hsame, hn] at hgone
  · intro hguest
    have hgrows : Grows x.tree z.tree := by
      refine hyz.grows hx (fun e he => ?_) (hxy.grows (.refl hx))
      obtain ⟨⟨e, k⟩, hk, rfl⟩ := List.mem_map.mp he
      exact hguest hk
    have hnodes : z.tree.nodes = x.tree.nodes := by
      refine hgrows.nodes_eq fun {j m} hm => Nat.lt_of_not_le fun hlate => ?_
      -- a node that is younger than the merge has been brought, and is uprooted
      obtain ⟨hkept, n, hn, hplaced⟩ := hyz.tree.node? hm
      rcases hxy.gains.fresh hn with ⟨n₀, hn₀, -⟩ | ⟨-, -, hmem, hhost, -⟩
      · exact absurd (hx.issued hn₀) (Nat.not_lt.mpr hlate)
      · exact hkept ⟨j, n, hn, hhost, hmem, .refl⟩
    exact fun j => congrArg (fun nodes => nodes[j]?) hnodes

/-- What the record that the contributed children are listed in reads as, once they are taken out. -/
theorem Longer.prune? {r s : Repository} {b : Association} {gone : List Entity} {e : Entity}
    (h : Longer r s k new b) (hnew : ∀ {c j}, (c, j) ∈ new → c ∈ es) (he : e ∈ b.children)
    (hgone : ∀ a, r.reading? k = some a → ∀ c ∈ a.children, c ∈ es → c ∈ gone) :
    b.prune? gone es = r.reading? k ↔ ∀ a, r.reading? k = some a →
      a.children ≠ [] ∧ a.container ∉ gone ∧ ∀ c ∈ a.children, c ∉ gone := by
  obtain ⟨-, extra, hextra, hplace⟩ := h
  have hnone : (extra.filter fun c => c ∉ gone ∧ c ∉ es) = [] :=
    List.filter_eq_nil_iff.mpr fun c hc => by simp [hnew (hextra c hc)]
  rcases hplace with ⟨a, ha, rfl⟩ | ⟨hfree, hchildren⟩
  · have hleft : ((a.children ++ extra).filter fun c => c ∉ gone ∧ c ∉ es) =
        a.children.filter fun c => c ∉ gone := by
      rw [List.filter_append, hnone, List.append_nil]
      refine List.filter_congr fun c hc => ?_
      have := hgone a ha c hc
      grind
    have hsome : a.children ++ extra ≠ [] := List.ne_nil_of_mem he
    rw [ha, Association.prune?_eq_some]
    simp only [hleft, Option.some.injEq, forall_eq']
    constructor
    · rintro ⟨hcontainer, hfilled, heq⟩
      refine ⟨hfilled hsome, hcontainer, fun c hc => ?_⟩
      rw [heq] at hc
      simpa using (List.mem_filter.mp hc).2
    · rintro ⟨hfilled, hcontainer, hkept⟩
      refine ⟨hcontainer, fun _ => hfilled, ?_⟩
      rw [List.filter_eq_self.mpr fun c hc => by simpa using hkept c hc]
  · rw [reading?_of_get?_none hfree]
    refine iff_of_true ?_ (by simp)
    have hsome : extra ≠ [] := hchildren ▸ List.ne_nil_of_mem he
    simp only [Association.prune?, hchildren, hnone]
    exact if_pos (.inr ⟨trivial, hsome⟩)

/-- A record is as it was if it names no contributed child that the tree did not hold, and was not
empty if it lists the children. -/
theorem BringsIn.reading_iff {gone : List Entity} (hxy : BringsIn i parent kind x y new)
    (hall : ∀ p ∈ new, p.2 = k)
    (hgone : ∀ e, e ∈ gone ↔ (∃ k, (e, k) ∈ new) ∧ ¬ x.tree.Has e) (j : RecordHandle) :
    (y.repository.reading? j).bind
        (Association.prune? gone (if j = k then new.map Prod.fst else [])) =
      x.repository.reading? j ↔
    ∀ a, x.repository.reading? j = some a → ((∃ e, (e, j) ∈ new) → a.children ≠ []) ∧
      a.container ∉ gone ∧ ∀ c ∈ a.children, c ∉ gone := by
  have hes {c : Entity} : c ∈ new.map Prod.fst ↔ ∃ j, (c, j) ∈ new := by simp
  by_cases hj : ∃ e, (e, j) ∈ new
  · obtain ⟨e, he⟩ := hj
    obtain rfl : j = k := hall _ he
    obtain ⟨b, hlonger, hlisted⟩ := hxy.longer he
    rw [hlonger.read, Option.bind_some, if_pos rfl,
      hlonger.prune? (fun hc => hes.mpr ⟨_, hc⟩) hlisted fun a ha c hc hmem => ?_]
    · simp only [forall_const, (⟨e, he⟩ : ∃ e, (e, j) ∈ new)]
    · obtain ⟨i, hi⟩ := hes.mp hmem
      obtain rfl : i = j := hall _ hi
      exact (hgone c).mpr ⟨⟨i, hi⟩, fun hhas => hxy.unlisted hi hhas ha hc⟩
  · have htaken : (if j = k then new.map Prod.fst else []) = [] := by
      split_ifs with hjk
      · refine List.eq_nil_iff_forall_not_mem.mpr fun c hc => ?_
        obtain ⟨i, hi⟩ := hes.mp hc
        exact hj ⟨c, hjk ▸ hall _ hi ▸ hi⟩
      · rfl
    rw [htaken, hxy.reading? (not_exists.mp hj)]
    cases x.repository.reading? j with
    | none => simp
    | some a => simp [hj, Association.prune?_eq_self]

/-- All records are as they were just if the host has the contributed children for itself. -/
theorem BringsIn.readings_iff (hxy : BringsIn i parent kind x y new) (hx : x.tree.Forest)
    (hyz : Reverted k (new.map Prod.fst) y z) (hall : ∀ p ∈ new, p.2 = k)
    (hguest : ∀ {e k}, (e, k) ∈ new → ¬ x.tree.Guest e) :
    (∀ j, z.repository.reading? j = x.repository.reading? j) ↔ x.Apart new := by
  obtain ⟨gone, hgone, hreads⟩ := hyz.reads
  simp only [hxy.loses_iff hx hguest] at hgone
  simp only [hreads, hxy.reading_iff hall hgone]
  constructor
  · intro h
    refine ⟨hguest, fun {e i} he hnew {j a} ha => ⟨?_, fun hmem => ?_⟩, fun he ha => ?_⟩
    · rintro rfl
      exact (h j a ha).2.1 ((hgone _).mpr ⟨⟨i, he⟩, hnew⟩)
    · exact (h j a ha).2.2 e hmem ((hgone e).mpr ⟨⟨i, he⟩, hnew⟩)
    · exact (h _ _ ha).1 ⟨_, he⟩
  · intro h j a ha
    refine ⟨fun ⟨e, he⟩ => h.filled he ha, fun hmem => ?_, fun c hc hmem => ?_⟩
    · obtain ⟨⟨i, hi⟩, hnew⟩ := (hgone _).mp hmem
      exact (h.unnamed hi hnew ha).1 rfl
    · obtain ⟨⟨i, hi⟩, hnew⟩ := (hgone _).mp hmem
      exact (h.unnamed hi hnew ha).2 hc

/-- A record of the host is merged and removed again. The imports are as they were, and the tree and
what the controller's own association records read as are as they were just if the host has the
contributed children for itself. -/
theorem merge_forget_restores_iff (hx : x.tree.Forest) (hunique : x.tree.Untwinned)
    (hown : x.settings.ownRange = x.repository.ownRange)
    (hrange : x.repository.ownRange.first ≤ x.repository.ownRange.last)
    (hfree : x.imports[h]? = none) (hmerge : x.merge h a = (y, .ok ())) :
    ∃ z touched, y.forget [h] = (z, .ok touched) ∧ z.imports = x.imports ∧
      (((∀ i, z.tree.node? i = x.tree.node? i) ∧
        ∀ k, z.repository.reading? k = x.repository.reading? k) ↔ x.Apart (y.contribution h)) := by
  obtain ⟨⟨i, parent, hxy⟩, hnoted⟩ := merge_brings_contribution hx hrange hfree hmerge
  suffices hreverted : ∃ z touched k, y.forget [h] = (z, .ok touched) ∧ z.imports = x.imports ∧
      Reverted k ((y.contribution h).map Prod.fst) y z ∧ ∀ p ∈ y.contribution h, p.2 = k by
    obtain ⟨z, touched, k, hforget, himports, hyz, hall⟩ := hreverted
    refine ⟨z, touched, hforget, himports, ?_⟩
    rw [hxy.nodes_iff hx hyz]
    constructor
    · rintro ⟨hguest, hreads⟩
      exact (hxy.readings_iff hx hyz hall hguest).mp hreads
    · exact fun h => ⟨h.own, (hxy.readings_iff hx hyz hall h.own).mpr h⟩
  have hy : y.tree.Untwinned := (hxy.grows (.refl hx)).untwinned hunique
  have hown' : y.settings.ownRange = y.repository.ownRange := by
    rw [hxy.settings, hxy.ownRange, hown]
  rcases hnoted with ⟨hnil, himports⟩ | ⟨parent, k, hall, hlegible, himports⟩
  · have hnone : y.imports[h]? = none := by rw [himports, hfree]
    refine ⟨y, ∅, 0, by simp [forget, dropImports, dropImport, hnone],
      himports, ?_, by simp [hnil]⟩
    exact unmergeAll_reverted hxy.forest hy hown' (by simp [hnil]) (by rw [hnil]; rfl)
  · have hnoted : y.imports[h]? =
        some (.merged parent ((y.contribution h).map Prod.fst) k) := by
      rw [himports, imports_insert, if_pos rfl]
    obtain ⟨z, touched, hforget, hleft, hyz⟩ :=
      forget_reverted hxy.forest hy hown' hnoted hlegible hxy.gains.all
    refine ⟨z, touched, k, hforget, hleft.trans ?_, hyz, hall⟩
    refine Std.ExtTreeMap.ext_getElem? fun {j} => ?_
    rw [himports, imports_erase, imports_insert]
    split_ifs with hj
    · rw [hj, hfree]
    · rfl

/-- The chassis alone, and a record of the controller that lists a card in it. -/
def cardlessChassis : Exchange :=
  start .standard ⟨[]⟩
    ((Repository.empty .localDefault .hostDefault).put 1
      (.listing 1 ⟨1, Association.physical, ⟨11521, 1, 0⟩, [⟨68, 1, 1⟩]⟩))
    (Containment.empty.afterAll [.addRoot ⟨11521, 1, 0⟩ .own])

/-- The host lists another card, which it has for itself. So everything is as it was. -/
theorem merge_forget_restores_iff_card :
    let x := cardlessChassis
    let y := (x.merge 1 ⟨1, Association.physical, ⟨11521, 1, 0⟩, [⟨68, 1, 2⟩]⟩).1
    y.contribution 1 = [(⟨68, 1, 2⟩, 1)] ∧ x.Apart (y.contribution 1) ∧
      ∃ z touched, y.forget [1] = (z, .ok touched) ∧ z.imports = x.imports ∧
        (∀ i, z.tree.node? i = x.tree.node? i) ∧
        ∀ k, z.repository.reading? k = x.repository.reading? k := by
  intro x y
  have hforest : cardlessChassis.tree.Forest :=
    (Unrepeated.empty.afterAll [.addRoot ⟨11521, 1, 0⟩ .own]).forest
  have hcard : y.contribution 1 = [(⟨68, 1, 2⟩, 1)] := by decide +kernel
  have hguest (e : Entity) : ¬ x.tree.Guest e := by
    rintro ⟨i, n, hn, -, hhost⟩
    have hall : ∀ entry ∈ x.tree.nodes.toList, entry.2.origin = .own := by decide +kernel
    have hown := hall (i, n) (Std.ExtTreeMap.mem_toList_iff_getElem?_eq_some.mpr hn)
    simp [hhost] at hown
  have hread {k : RecordHandle} {a : Association} (ha : x.repository.reading? k = some a) :
      a = ⟨1, Association.physical, ⟨11521, 1, 0⟩, [⟨68, 1, 1⟩]⟩ := by
    obtain ⟨record, -, hget, -⟩ := reading?_eq_some.mp ha
    have hall : ∀ entry ∈ x.repository.toList, entry.1 = 1 := by decide +kernel
    obtain rfl : k = 1 := hall (k, record) (mem_toList.mpr hget)
    have hone : x.repository.reading? 1 =
        some ⟨1, Association.physical, ⟨11521, 1, 0⟩, [⟨68, 1, 1⟩]⟩ := by decide +kernel
    exact Option.some.inj (ha.symm.trans hone)
  have hapart : x.Apart (y.contribution 1) := by
    rw [hcard]
    refine ⟨fun _ => hguest _, fun he _ _ _ ha => ?_, fun _ ha => ?_⟩
    · obtain ⟨rfl, rfl⟩ := Prod.mk.inj (List.mem_singleton.mp he)
      simp [hread ha]
    · simp [hread ha]
  have hmerge : x.merge 1 ⟨1, Association.physical, ⟨11521, 1, 0⟩, [⟨68, 1, 2⟩]⟩ = (y, .ok ()) :=
    Prod.ext rfl (by decide +kernel)
  obtain ⟨z, touched, hforget, himports, hiff⟩ :=
    merge_forget_restores_iff hforest (by decide +kernel) rfl (by decide) rfl hmerge
  exact ⟨hcard, hapart, z, touched, hforget, himports, hiff.mpr hapart⟩

/-- The host lists the card that the controller lists. When its record is removed the record of the
controller goes, too. -/
theorem merge_forget_takes_record :
    let x := cardlessChassis
    let a : Association := ⟨1, Association.physical, ⟨11521, 1, 0⟩, [⟨68, 1, 1⟩]⟩
    x.tree.Forest ∧ x.tree.Untwinned ∧ x.settings.ownRange = x.repository.ownRange ∧
      x.imports[(1 : RecordHandle)]? = none ∧ (x.merge 1 a).2 = .ok () ∧
      x.repository.reading? 1 = some a ∧ (x.merge 1 a).1.repository.reading? 1 = some a ∧
      ((x.merge 1 a).1.forget [1]).2.toBool = true ∧
      ((x.merge 1 a).1.forget [1]).1.repository.reading? 1 = none := by
  intro x a
  exact ⟨(Unrepeated.empty.afterAll [.addRoot ⟨11521, 1, 0⟩ .own]).forest, by decide +kernel⟩

end restoring

end Exchange
end DescriptorExchange
