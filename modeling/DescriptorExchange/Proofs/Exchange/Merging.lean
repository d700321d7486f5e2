import DescriptorExchange.Proofs.Exchange.Retraction

/-!
Merging the children of an association. All that is new about them is listed in one record, and
claimed under it.
-/
namespace DescriptorExchange.Exchange

open Repository Containment

variable {x y z : Exchange} {r₀ : Repository} {t₀ : Containment}
  {held : Entity → RecordHandle → Prop}
  {kind : UInt8} {child : Entity} {children : List Entity} {node : NodeId} {above : Node}

/-- Children merged under a node: what is new is claimed under the one record that the parent has
for them in the end. -/
structure MergesInto (r₀ : Repository) (t₀ : Containment) (held : Entity → RecordHandle → Prop)
    (node : NodeId) (parent : Entity) (kind : UInt8) (x y : Exchange)
    (new : List (Entity × RecordHandle)) :
    Prop where
  settings : y.settings = x.settings
  imports : y.imports = x.imports
  above : ∃ above, y.tree.node? node = some above ∧ above.entity = parent
  graft : GraftedIn r₀ t₀ y fun e j => held e j ∨ (e, j) ∈ new
  harmless : Harmless r₀ fun e j => (e, j) ∈ new
  found : ∀ j, (∃ e, (e, j) ∈ new) ∨
      x.repository.findAssociation? parent kind x.repository.ownRange = some j →
    y.repository.findAssociation? parent kind y.repository.ownRange = some j

namespace MergesInto

variable {parent : Entity} {new more : List (Entity × RecordHandle)}

theorem refl (h : GraftedIn r₀ t₀ x held) (habove : x.tree.node? node = some above) :
    MergesInto r₀ t₀ held node above.entity kind x x [] where
  settings := rfl
  imports := rfl
  above := ⟨above, habove, rfl⟩
  graft := h.mono fun _ _ => .inl
  harmless e j hc := by simp at hc
  found j hj := hj.resolve_left (by simp)

theorem trans (hxy : MergesInto r₀ t₀ held node parent kind x y new)
    (hyz : MergesInto r₀ t₀ (fun e j => held e j ∨ (e, j) ∈ new) node parent kind y z more) :
    MergesInto r₀ t₀ held node parent kind x z (new ++ more) where
  settings := hyz.settings.trans hxy.settings
  imports := hyz.imports.trans hxy.imports
  above := hyz.above
  graft := hyz.graft.mono fun e j => by
    rw [List.mem_append, or_assoc]
    exact id
  harmless e j hc := (List.mem_append.mp hc).elim (hxy.harmless e j) (hyz.harmless e j)
  found j hj := by
    rcases hj with ⟨e, he⟩ | hj
    · rcases List.mem_append.mp he with he | he
      · exact hyz.found j (.inr (hxy.found j (.inl ⟨e, he⟩)))
      · exact hyz.found j (.inl ⟨e, he⟩)
    · exact hyz.found j (.inr (hxy.found j (.inr hj)))

/-- Noting changed records in the cycle changes none of this. -/
theorem touch (h : MergesInto r₀ t₀ held node parent kind x y new) (handles : List RecordHandle) :
    MergesInto r₀ t₀ held node parent kind x (y.touch handles) new :=
  ⟨h.settings, h.imports, h.above, ⟨h.graft.range, h.graft.grafted⟩, h.harmless, h.found⟩

end MergesInto

section merge

variable (hranges : r₀.ownRange.Apart r₀.hostRange)
include hranges

/-- A child that is attached as a new node is new to the record of its parent as well. -/
theorem isNew_or_changed_iff {tree : Containment} {placement : Placement} {changed : Bool}
    {s : Repository} {k : RecordHandle} (h : GraftedIn r₀ t₀ x held)
    (hattach : x.tree.attach node child .host = .ok (tree, placement))
    (hassociate : x.repository.associate parent kind child = .ok (s, k, changed)) :
    (placement.isNew = true ∨ changed = true) ↔ changed = true := by
  refine ⟨fun hor => hor.elim (fun hcreated => ?_) id, .inr⟩
  cases placement with
  | created id => exact h.grafted.changed_of_created hranges.ownProper hattach hassociate
  | present id => simp [Placement.isNew] at hcreated

theorem mergeChild_mergesInto {record : Option RecordHandle} (h : GraftedIn r₀ t₀ x held)
    (habove : x.tree.node? node = some above)
    (hmerge : x.mergeChild node above.entity kind child = (y, .ok record)) :
    MergesInto r₀ t₀ held node above.entity kind x y (record.map fun k => (child, k)).toList := by
  rcases mergeChild_eq_ok hmerge with
    ⟨rfl, rfl, -⟩ | ⟨tree, placement, s, j, changed, hattach, hassociate, rfl, rfl⟩
  · exact .refl h habove
  · have hrange : x.repository.ownRange.first ≤ x.repository.ownRange.last :=
      h.grafted.repository.ownRange ▸ hranges.ownProper
    have hmem (e : Entity) (i : RecordHandle) :
        (e, i) ∈ ((if changed then some j else none).map fun k => (child, k)).toList ↔
          changed = true ∧ e = child ∧ i = j := by
      cases changed <;> simp
    have hfind := findAssociation?_associate h.grafted.repository.tidy hrange hassociate
    have habove' := node?_attach h.grafted.tree.forest hattach habove
    have hgraft := h.grafted.merge hranges.ownProper habove hattach hassociate
    have hharmless := h.grafted.harmless_merge hranges.ownProper hassociate
    simp only [isNew_or_changed_iff hranges h hattach hassociate]
    suffices hlisted : MergesInto r₀ t₀ held node above.entity kind x
        { x.grow tree placement child with repository := s }
        ((if changed then some j else none).map fun k => (child, k)).toList by
      cases changed
      · exact hlisted
      · exact hlisted.touch [j]
    refine ⟨by simp, by simp, by simpa using habove', ⟨by simpa using h.range, ?_⟩, ?_,
      fun i hi => ?_⟩
    · simp only [grow_tree, hmem]
      exact hgraft
    · simpa only [hmem] using hharmless
    · rw [hfind]
      rcases hi with ⟨e, he⟩ | hi
      · rw [((hmem e i).mp he).2.2]
      · rcases associate_eq_ok hassociate with ⟨hfound, -⟩ | ⟨hnone, -, -⟩
        · rw [← hfound, hi]
        · simp [hnone] at hi

theorem mergeChildren_mergesInto {new : List (Entity × RecordHandle)} (h : GraftedIn r₀ t₀ x held)
    (habove : x.tree.node? node = some above)
    (hmerge : mergeChildren node above.entity kind children x = (y, .ok new)) :
    MergesInto r₀ t₀ held node above.entity kind x y new := by
  induction children generalizing x held above new with
  | nil =>
    obtain ⟨rfl, rfl⟩ : x = y ∧ [] = new := by simpa [mergeChildren] using hmerge
    exact .refl h habove
  | cons child children ih =>
    obtain ⟨mid, record, more, hchild, hchildren, rfl⟩ := mergeChildren_cons_eq_ok hmerge
    have hmid := mergeChild_mergesInto hranges h habove hchild
    obtain ⟨above', habove', hentity⟩ := hmid.above
    rw [← hentity] at hchildren hmid ⊢
    exact hmid.trans (ih hmid.graft habove' hchildren)

end merge

end DescriptorExchange.Exchange
