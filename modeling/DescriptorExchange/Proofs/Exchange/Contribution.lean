import DescriptorExchange.Proofs.Containment.Places
import DescriptorExchange.Proofs.Exchange.Merging
import DescriptorExchange.Proofs.Repository.Lengthening

/-!
What merging the children of an association contributes: the first occurrences of those children that
are not elsewhere in the tree and not listed yet. None of the children would be contributed again. If
they can be listed, merging them does not fail and lists them in this order.
-/
namespace DescriptorExchange

open Repository Containment

/-- The first occurrences of those entities of a list that are wanted. -/
inductive Firsts : (Entity → Prop) → List Entity → List Entity → Prop
  | nil {p : Entity → Prop} : Firsts p [] []
  | pass {p : Entity → Prop} {c : Entity} {cs ds : List Entity} (hc : ¬ p c) (h : Firsts p cs ds) :
      Firsts p (c :: cs) ds
  | take {p : Entity → Prop} {c : Entity} {cs ds : List Entity} (hc : p c)
      (h : Firsts (fun d => p d ∧ d ≠ c) cs ds) : Firsts p (c :: cs) (c :: ds)

namespace Firsts

variable {p q : Entity → Prop} {cs ds es : List Entity} {c : Entity}

theorem congr (h : Firsts p cs ds) (hpq : ∀ c ∈ cs, p c ↔ q c) : Firsts q cs ds := by
  induction h generalizing q with
  | nil => exact .nil
  | pass hc _ ih =>
    refine .pass (mt (hpq _ List.mem_cons_self).mpr hc) (ih fun d hd => ?_)
    exact hpq d (List.mem_cons_of_mem _ hd)
  | take hc _ ih =>
    refine .take ((hpq _ List.mem_cons_self).mp hc) (ih fun d hd => ?_)
    exact and_congr_left fun _ => hpq d (List.mem_cons_of_mem _ hd)

theorem of_none (h : ∀ c ∈ cs, ¬ p c) : Firsts p cs [] := by
  induction cs with
  | nil => exact .nil
  | cons c cs ih =>
    exact .pass (h c List.mem_cons_self) (ih fun d hd => h d (List.mem_cons_of_mem _ hd))

theorem of_nodup (hnodup : cs.Nodup) (h : ∀ c ∈ cs, p c) : Firsts p cs cs := by
  induction cs generalizing p with
  | nil => exact .nil
  | cons c cs ih =>
    obtain ⟨hnew, hnodup⟩ := List.nodup_cons.mp hnodup
    refine .take (h c List.mem_cons_self) (ih hnodup fun d hd => ?_)
    exact ⟨h d (List.mem_cons_of_mem _ hd), fun hdc => hnew (hdc ▸ hd)⟩

theorem mem (h : Firsts p cs ds) : c ∈ ds ↔ c ∈ cs ∧ p c := by
  induction h with
  | nil => simp
  | @pass p d cs ds hd _ ih =>
    rw [ih, List.mem_cons]
    refine ⟨fun h => ⟨.inr h.1, h.2⟩, fun h => ⟨h.1.resolve_left ?_, h.2⟩⟩
    rintro rfl
    exact hd h.2
  | @take p d cs ds hd _ ih =>
    rw [List.mem_cons, List.mem_cons, ih]
    by_cases hcd : c = d
    · simp [hcd, hd]
    · simp [hcd]

theorem inj (h : Firsts p cs ds) (h' : Firsts p cs es) : ds = es := by
  induction h generalizing es with
  | nil =>
    cases h'
    rfl
  | pass hc _ ih =>
    cases h' with
    | pass _ h' => exact ih h'
    | take hc' _ => exact absurd hc' hc
  | take hc _ ih =>
    cases h' with
    | pass hc' _ => exact absurd hc hc'
    | take _ h' => rw [ih h']

end Firsts

namespace Exchange

variable {x y z : Exchange} {r₀ s : Repository} {t₀ : Containment}
  {held : Entity → RecordHandle → Prop} {node : NodeId} {above : Node} {parent child c : Entity}
  {kind : UInt8} {children more new rest : List Entity}

/-- Merging the child under the node would contribute it: it is no entity that lives elsewhere, and the
record of the parent does not list it. -/
def Wants (x : Exchange) (node : NodeId) (parent : Entity) (kind : UInt8) (c : Entity) : Prop :=
  (x.tree.Houses node c ∨ ¬ x.tree.Has c) ∧ ¬ x.repository.Enters parent kind c

/-- An entity of which the record of a parent has a listing is in the tree. -/
theorem GraftedIn.has_of_enters (h : GraftedIn r₀ t₀ x held)
    (hc : x.repository.Enters parent kind c) : x.tree.Has c := by
  obtain ⟨k, a, -, ha, hmem⟩ := hc
  obtain ⟨id, n, -, -, hn, -, -, -, he⟩ := (h.grafted.mirror a.container c).mp
    (h.grafted.repository.tidy.lists_iff.mpr ⟨k, a, ha, rfl, hmem⟩)
  exact ⟨id, n, hn, he⟩

theorem GraftedIn.has_of_not_wants (h : GraftedIn r₀ t₀ x held)
    (hc : ¬ x.Wants node parent kind c) : x.tree.Has c := by
  by_contra hnew
  exact hc ⟨.inr hnew, fun henters => hnew (h.has_of_enters henters)⟩

/-- Children have been merged under a node, and some of them were new. -/
structure Contributes (node : NodeId) (parent : Entity) (kind : UInt8) (children : List Entity)
    (x y : Exchange) (new : List Entity) : Prop where
  firsts : Firsts (x.Wants node parent kind) children new
  wants : ∀ c, y.Wants node parent kind c ↔ x.Wants node parent kind c ∧ c ∉ children
  tree : x.tree.Gains node children y.tree
  repository : x.repository.Lengthens y.repository
  others : Relisted x.repository y.repository
  under : ∀ c ∈ new, y.tree.Houses node c

namespace Contributes

theorem refl (hx : x.repository.Tidy) : Contributes node parent kind [] x x [] where
  firsts := .nil
  wants c := by simp
  tree := .refl ..
  repository := .refl _
  others := .refl hx
  under c hc := by simp at hc

theorem cons {first : List Entity} (hxy : Contributes node parent kind [child] x y first)
    (hyz : Contributes node parent kind children y z rest) :
    Contributes node parent kind (child :: children) x z (first ++ rest) where
  firsts := by
    have hwants (c : Entity) : y.Wants node parent kind c ↔
        x.Wants node parent kind c ∧ c ≠ child := by
      rw [hxy.wants, List.mem_singleton]
    have hrest := hyz.firsts
    have hfirst := hxy.firsts
    cases hfirst with
    | pass hc h =>
      cases h
      refine .pass hc (hrest.congr fun d _ => ?_)
      rw [hwants, and_iff_left_iff_imp]
      rintro hd rfl
      exact hc hd
    | take hc h =>
      cases h
      exact .take hc (hrest.congr fun d _ => hwants d)
  wants c := by
    rw [hyz.wants, hxy.wants, List.mem_singleton, List.mem_cons, not_or, and_assoc]
  tree := hxy.tree.trans hyz.tree
  repository := hxy.repository.trans hyz.repository
  others := hxy.others.trans hyz.others
  under c hc := (List.mem_append.mp hc).elim (fun hc => hyz.tree.houses (hxy.under c hc))
    (hyz.under c)

/-- What is noted in the cycle makes no difference. -/
theorem touch (h : Contributes node parent kind children x y new) (handles : List RecordHandle) :
    Contributes node parent kind children x (y.touch handles) new :=
  ⟨h.firsts, h.wants, h.tree, h.repository, h.others, h.under⟩

end Contributes

section merge

variable (hranges : r₀.ownRange.Apart r₀.hostRange)
include hranges

/-- A child that is attached and listed. -/
theorem contributes_of_attached {tree : Containment} {placement : Placement} {k : RecordHandle}
    {changed : Bool} (h : GraftedIn r₀ t₀ x held) (habove : x.tree.node? node = some above)
    (hattach : x.tree.attach node child .host = .ok (tree, placement))
    (hassociate : x.repository.associate above.entity kind child = .ok (s, k, changed)) :
    Contributes node above.entity kind [child] x { x.grow tree placement child with repository := s }
      (if changed then [child] else []) := by
  have htidy := h.grafted.repository.tidy
  have hforest := h.grafted.tree.forest
  have hrange : x.repository.ownRange.first ≤ x.repository.ownRange.last :=
    h.grafted.repository.ownRange ▸ hranges.ownProper
  obtain ⟨hchanged, henters⟩ := associate_enters htidy hrange hassociate
  have hgains : x.tree.Gains node [child] tree := .attach hforest habove hattach
  have hplace : x.tree.Houses node child ∨ ¬ x.tree.Has child := by
    rcases attach_cases hforest habove child with ⟨hhouses, -⟩ | ⟨-, -, err, heq⟩ | ⟨hnew, -⟩
    · exact .inl hhouses
    · simp [heq] at hattach
    · exact .inr hnew
  have hunder : tree.Houses node child := by
    by_cases hhas : x.tree.Has child
    · exact hgains.houses (hplace.resolve_right (not_not.mpr hhas))
    · exact hgains.houses_of_mem List.mem_cons_self hhas
  have hwants : x.Wants node above.entity kind child ↔ changed = true := by
    rw [Wants, and_iff_right hplace, hchanged]
  refine ⟨?_, fun c => ?_, by simpa using hgains, associate_lengthens htidy hrange hassociate,
    (associate_relisted htidy hrange hassociate).1, fun c hc => ?_⟩
  · cases changed with
    | true => exact .take (hwants.mpr rfl) .nil
    | false => exact .pass (fun hc => by simpa using hwants.mp hc) .nil
  · rw [List.mem_singleton]
    simp only [Wants, grow_tree, henters, not_or]
    by_cases hcc : c = child
    · simp [hcc]
    · -- a child other than this one is where it was
      have hhouses : tree.Houses node c ∨ ¬ tree.Has c ↔ x.tree.Houses node c ∨ ¬ x.tree.Has c := by
        rw [hgains.has_iff, List.mem_singleton, or_iff_left hcc]
        by_cases hhas : x.tree.Has c
        · rw [hgains.houses_iff_of_has hhas]
        · exact iff_of_true (.inr hhas) (.inr hhas)
      rw [hhouses, and_assoc]
  · split_ifs at hc
    · simpa [List.mem_singleton.mp hc] using hunder
    · simp at hc

omit hranges in
/-- A child that lives elsewhere is passed over. -/
theorem contributes_of_refused {e : ContainmentError} (h : GraftedIn r₀ t₀ x held)
    (habove : x.tree.node? node = some above)
    (hattach : x.tree.attach node child .host = .error e) :
    Contributes node above.entity kind [child] x x [] := by
  rcases attach_cases h.grafted.tree.forest habove child with
    ⟨-, j, heq⟩ | ⟨hout, hhas, -⟩ | ⟨-, heq⟩
  · simp [heq] at hattach
  · have hunwanted : ¬ x.Wants node above.entity kind child := fun hc =>
      hc.1.elim hout fun hnew => hnew hhas
    refine ⟨.pass hunwanted .nil, fun c => ?_, .of_has hhas, .refl _,
      .refl h.grafted.repository.tidy, by simp⟩
    rw [List.mem_singleton, iff_self_and]
    rintro hc rfl
    exact hunwanted hc
  · simp [heq] at hattach

theorem mergeChild_contributes {record : Option RecordHandle} (h : GraftedIn r₀ t₀ x held)
    (habove : x.tree.node? node = some above)
    (hmerge : x.mergeChild node above.entity kind child = (y, .ok record)) :
    Contributes node above.entity kind [child] x y ((record.map fun _ => child).toList) := by
  rcases mergeChild_eq_ok hmerge with
    ⟨rfl, rfl, e, hattach⟩ | ⟨tree, placement, s, j, changed, hattach, hassociate, rfl, rfl⟩
  · exact contributes_of_refused h habove hattach
  · have hlisted := contributes_of_attached hranges h habove hattach hassociate
    simp only [isNew_or_changed_iff hranges h hattach hassociate]
    cases changed
    · exact hlisted
    · exact hlisted.touch [j]

theorem mergeChildren_contributes {pairs : List (Entity × RecordHandle)}
    (h : GraftedIn r₀ t₀ x held) (habove : x.tree.node? node = some above)
    (hmerge : mergeChildren node above.entity kind children x = (y, .ok pairs)) :
    Contributes node above.entity kind children x y (pairs.map Prod.fst) := by
  induction children generalizing x held above pairs with
  | nil =>
    obtain ⟨rfl, rfl⟩ : x = y ∧ [] = pairs := by simpa [mergeChildren] using hmerge
    exact .refl h.grafted.repository.tidy
  | cons child children ih =>
    obtain ⟨mid, record, more, hchild, hchildren, rfl⟩ := mergeChildren_cons_eq_ok hmerge
    have hfirst := mergeChild_contributes hranges h habove hchild
    have hmid := mergeChild_mergesInto hranges h habove hchild
    obtain ⟨above', habove', hentity⟩ := hmid.above
    rw [← hentity] at hchildren hfirst ⊢
    have hall := hfirst.cons (ih hmid.graft habove' hchildren)
    rw [List.map_append]
    cases record <;> exact hall

omit hranges in
/-- A child that is wanted is listed if it can be. -/
theorem mergeChild_of_wants {k : RecordHandle} (h : GraftedIn r₀ t₀ x held)
    (habove : x.tree.node? node = some above) (hwants : x.Wants node above.entity kind child)
    (hassociate : x.repository.associate above.entity kind child = .ok (s, k, true)) :
    ∃ y record, x.mergeChild node above.entity kind child = (y, .ok record) ∧ y.repository = s := by
  have hattach : ∃ tree placement, x.tree.attach node child .host = .ok (tree, placement) := by
    rcases attach_cases h.grafted.tree.forest habove child with
      ⟨-, j, heq⟩ | ⟨hout, hhas, -⟩ | ⟨-, heq⟩
    · exact ⟨_, _, heq⟩
    · exact absurd hhas (hwants.1.resolve_left hout)
    · exact ⟨_, _, heq⟩
  obtain ⟨tree, placement, hattach⟩ := hattach
  rw [mergeChild_of_attached hattach, hassociate]
  exact ⟨_, _, rfl, rfl⟩

omit hranges in
/-- A child that is not wanted changes no record. -/
theorem mergeChild_of_not_wants (h : GraftedIn r₀ t₀ x held)
    (habove : x.tree.node? node = some above) (hwants : ¬ x.Wants node above.entity kind child) :
    ∃ y record, x.mergeChild node above.entity kind child = (y, .ok record) ∧
      y.repository = x.repository := by
  rcases attach_cases h.grafted.tree.forest habove child with
    ⟨hhouses, j, heq⟩ | ⟨-, -, err, heq⟩ | ⟨hnew, -⟩
  · obtain ⟨k, a, hfind, ha, hmem⟩ : x.repository.Enters above.entity kind child := by
      by_contra hc
      exact hwants ⟨.inl hhouses, hc⟩
    have hassociate : x.repository.associate above.entity kind child =
        .ok (x.repository, k, false) := by
      simp only [associate, hfind, addChild, association_of_holds ha, bind, Except.bind,
        if_pos hmem, pure, Except.pure, Except.map]
    rw [mergeChild_of_attached heq, hassociate]
    exact ⟨_, _, rfl, by simp⟩
  · rw [mergeChild_of_refused heq]
    exact ⟨x, none, rfl, rfl⟩
  · exact absurd (h.has_of_not_wants hwants) hnew

/-- Children that can be listed are merged, and the records are as after listing them. -/
theorem mergeChildren_replays (h : GraftedIn r₀ t₀ x held)
    (habove : x.tree.node? node = some above)
    (hfirsts : Firsts (x.Wants node above.entity kind) children new)
    (hlists : ListsAll above.entity kind x.repository new s) :
    ∃ y pairs, mergeChildren node above.entity kind children x = (y, .ok pairs) ∧
      y.repository = s := by
  induction children generalizing x held above new with
  | nil =>
    cases hfirsts
    cases hlists
    exact ⟨x, [], rfl, rfl⟩
  | cons child children ih =>
    -- the merge of one child leaves what the others would contribute as it is
    have hgo {y : Exchange} {record : Option RecordHandle} {rest : List Entity}
        (hchild : x.mergeChild node above.entity kind child = (y, .ok record))
        (hfirsts : Firsts (fun c => x.Wants node above.entity kind c ∧ c ≠ child) children rest)
        (hlists : ListsAll above.entity kind y.repository rest s) :
        ∃ y pairs, mergeChildren node above.entity kind (child :: children) x = (y, .ok pairs) ∧
          y.repository = s := by
      have hwants := (mergeChild_contributes hranges h habove hchild).wants
      have hmid := mergeChild_mergesInto hranges h habove hchild
      obtain ⟨above', habove', hentity⟩ := hmid.above
      replace hfirsts : Firsts (y.Wants node above'.entity kind) children rest :=
        hfirsts.congr fun c _ => by rw [hentity, hwants, List.mem_singleton]
      obtain ⟨z, pairs, hchildren, hz⟩ := ih hmid.graft habove' hfirsts (hentity ▸ hlists)
      rw [hentity] at hchildren
      exact ⟨z, (record.map fun k => (child, k)).toList ++ pairs,
        by simp only [mergeChildren, hchild, hchildren], hz⟩
    cases hfirsts with
    | pass hc hfirsts =>
      obtain ⟨y, record, hchild, hy⟩ := mergeChild_of_not_wants h habove hc
      refine hgo hchild (hfirsts.congr fun d _ => ?_) (hy ▸ hlists)
      rw [iff_self_and]
      rintro hd rfl
      exact hc hd
    | take hc hfirsts =>
      cases hlists with
      | cons hassociate hlists =>
        obtain ⟨y, record, hchild, hy⟩ := mergeChild_of_wants h habove hc hassociate
        exact hgo hchild hfirsts (hy ▸ hlists)

end merge

end Exchange
end DescriptorExchange
