import DescriptorExchange.Proofs.Exchange.Undoing
import DescriptorExchange.Proofs.Exchange.Withdrawals
import DescriptorExchange.Proofs.Repository.Reading

/-!
What a merge brings in, told of any tree and any records. The children that are contributed are
listed in one record, which was there and is longer now, or is new. The nodes that are new hold some of
these children and lie under the one node, and all other records and nodes are as they were.
-/
namespace DescriptorExchange

open Repository Containment

namespace Exchange

variable {x y z : Exchange} {i : NodeId} {n : Node} {parent child e : Entity} {kind : UInt8}
  {new more : List (Entity × RecordHandle)} {k : RecordHandle}

/-- A record has got some of the children that are contributed after those it had, or it is new and has
these alone. -/
structure Longer (r s : Repository) (k : RecordHandle) (new : List (Entity × RecordHandle))
    (b : Association) : Prop where
  read : s.reading? k = some b
  place : ∃ extra, (∀ c ∈ extra, (c, k) ∈ new) ∧
    ((∃ a, r.reading? k = some a ∧ b = { a with children := a.children ++ extra }) ∨
      (r.get? k = none ∧ b.children = extra))

/-- Children have been merged under a node and a parent, and some of them were new. -/
structure BringsIn (i : NodeId) (parent : Entity) (kind : UInt8) (x y : Exchange)
    (new : List (Entity × RecordHandle)) : Prop where
  settings : y.settings = x.settings
  ownRange : y.repository.ownRange = x.repository.ownRange
  grows : ∀ {base}, Grows base x.tree → Grows base y.tree
  gains : x.tree.Gains i (new.map Prod.fst) y.tree
  forest : y.tree.Forest
  found : ∀ {k}, ((∃ e, (e, k) ∈ new) ∨
    x.repository.findAssociation? parent kind x.repository.ownRange = some k) →
      y.repository.findAssociation? parent kind y.repository.ownRange = some k
  others : ∀ {k}, (∀ e, (e, k) ∉ new) → y.repository.get? k = x.repository.get? k
  longer : ∀ {e k}, (e, k) ∈ new → ∃ b, Longer x.repository y.repository k new b ∧ e ∈ b.children
  unlisted : ∀ {e k a}, (e, k) ∈ new → x.tree.Has e → x.repository.reading? k = some a →
    e ∉ a.children

namespace BringsIn

theorem of_same (hx : x.tree.Forest) (hsettings : y.settings = x.settings)
    (hrepository : y.repository = x.repository) (htree : y.tree = x.tree) :
    BringsIn i parent kind x y [] where
  settings := hsettings
  ownRange := by rw [hrepository]
  grows h := htree ▸ h
  gains := htree ▸ .refl ..
  forest := htree ▸ hx
  found h := hrepository ▸ h.resolve_left (by simp)
  others _ := by rw [hrepository]
  longer h := by simp at h
  unlisted h := by simp at h

theorem reading? (h : BringsIn i parent kind x y new) (hk : ∀ e, (e, k) ∉ new) :
    y.repository.reading? k = x.repository.reading? k :=
  reading?_congr h.ownRange (h.others hk)

/-- All that is contributed is listed in one record. -/
theorem record_eq {j : RecordHandle} {c : Entity} (h : BringsIn i parent kind x y new)
    (hj : (c, j) ∈ new) (hk : (e, k) ∈ new) : j = k :=
  Option.some.inj ((h.found (.inl ⟨c, hj⟩)).symm.trans (h.found (.inl ⟨e, hk⟩)))

/-- No listing is lost. -/
theorem children_subset {a : Association} (h : BringsIn i parent kind x y new)
    (ha : x.repository.reading? k = some a) :
    ∃ b, y.repository.reading? k = some b ∧ a.children ⊆ b.children := by
  by_cases hk : ∃ e, (e, k) ∈ new
  · obtain ⟨e, he⟩ := hk
    obtain ⟨b, ⟨hb, extra, -, hplace⟩, -⟩ := h.longer he
    rcases hplace with ⟨a', ha', rfl⟩ | ⟨hfree, -⟩
    · obtain rfl := Option.some.inj (ha.symm.trans ha')
      exact ⟨_, hb, List.subset_append_left ..⟩
    · simp [reading?_of_get?_none hfree] at ha
  · exact ⟨a, (h.reading? (not_exists.mp hk)).trans ha, fun _ => id⟩

/-- A record that has been made longer is made longer still. -/
theorem longer_trans {c : Entity} (hxy : BringsIn i parent kind x y new)
    (hyz : BringsIn i parent kind y z more) (hc : (c, k) ∈ more) :
    ∃ b, Longer x.repository z.repository k (new ++ more) b ∧ c ∈ b.children := by
  obtain ⟨b, ⟨hb, extra, hextra, hplace⟩, hlisted⟩ := hyz.longer hc
  have hright {d : Entity} (hd : d ∈ extra) : (d, k) ∈ new ++ more :=
    List.mem_append_right _ (hextra d hd)
  refine ⟨b, ⟨hb, ?_⟩, hlisted⟩
  by_cases hk : ∃ e, (e, k) ∈ new
  · obtain ⟨e, he⟩ := hk
    obtain ⟨b', ⟨hb', first, hfirst, hplace'⟩, -⟩ := hxy.longer he
    have hall : ∀ d ∈ first ++ extra, (d, k) ∈ new ++ more := fun d hd =>
      (List.mem_append.mp hd).elim (fun hd => List.mem_append_left _ (hfirst d hd)) hright
    rcases hplace with ⟨a', ha', rfl⟩ | ⟨hfree, -⟩
    · obtain rfl := Option.some.inj (hb'.symm.trans ha')
      rcases hplace' with ⟨a, ha, rfl⟩ | ⟨hfree, hchildren⟩
      · exact ⟨_, hall, .inl ⟨a, ha, by simp⟩⟩
      · exact ⟨_, hall, .inr ⟨hfree, by simp [hchildren]⟩⟩
    · simp [reading?_of_get?_none hfree] at hb'
  · have hsame := not_exists.mp hk
    refine ⟨extra, fun d hd => hright hd, ?_⟩
    rwa [hxy.reading? hsame, hxy.others hsame] at hplace

theorem trans (hxy : BringsIn i parent kind x y new) (hyz : BringsIn i parent kind y z more) :
    BringsIn i parent kind x z (new ++ more) where
  settings := hyz.settings.trans hxy.settings
  ownRange := hyz.ownRange.trans hxy.ownRange
  grows h := hyz.grows (hxy.grows h)
  gains := by
    rw [List.map_append]
    exact hxy.gains.trans hyz.gains
  forest := hyz.forest
  found {k} hk := by
    rcases hk with ⟨e, he⟩ | hk
    · rcases List.mem_append.mp he with he | he
      · exact hyz.found (.inr (hxy.found (.inl ⟨e, he⟩)))
      · exact hyz.found (.inl ⟨e, he⟩)
    · exact hyz.found (.inr (hxy.found (.inr hk)))
  others hk := by
    simp only [List.mem_append, not_or] at hk
    exact (hyz.others fun e => (hk e).2).trans (hxy.others fun e => (hk e).1)
  longer {e k} he := by
    rcases List.mem_append.mp he with he | he
    · obtain ⟨b, ⟨hb, extra, hextra, hplace⟩, hlisted⟩ := hxy.longer he
      obtain ⟨b', hb', hsub⟩ := hyz.children_subset hb
      by_cases hk : ∃ c, (c, k) ∈ more
      · obtain ⟨c, hc⟩ := hk
        obtain ⟨b'', hlonger, -⟩ := hxy.longer_trans hyz hc
        obtain rfl := Option.some.inj (hb'.symm.trans hlonger.read)
        exact ⟨b', hlonger, hsub hlisted⟩
      · have hsame := hyz.reading? (not_exists.mp hk)
        exact ⟨b, ⟨hsame.trans hb, extra, fun c hc => List.mem_append_left _ (hextra c hc), hplace⟩,
          hlisted⟩
    · exact hxy.longer_trans hyz he
  unlisted {e k a} he hhas ha := by
    rcases List.mem_append.mp he with he | he
    · exact hxy.unlisted he hhas ha
    · obtain ⟨b, hb, hsub⟩ := hxy.children_subset ha
      exact fun hmem => hyz.unlisted he (hxy.gains.has_iff.mpr (.inl hhas)) hb (hsub hmem)

/-- Only the settings, the records and the tree matter. -/
theorem congr {x' y' : Exchange} (h : BringsIn i parent kind x y new)
    (hx : x'.settings = x.settings ∧ x'.repository = x.repository ∧ x'.tree = x.tree)
    (hy : y'.settings = y.settings ∧ y'.repository = y.repository ∧ y'.tree = y.tree) :
    BringsIn i parent kind x' y' new := by
  obtain ⟨hsettings, hrepository, htree⟩ := hx
  obtain ⟨hsettings', hrepository', htree'⟩ := hy
  obtain ⟨h₁, h₂, h₃, h₄, h₅, h₆, h₇, h₈, h₉⟩ := h
  constructor <;> simpa only [hsettings, hrepository, htree, hsettings', hrepository', htree']

end BringsIn

/-- The record that a child is listed in has got it, if it had not. -/
theorem longer_of_associate {r s : Repository} {changed : Bool}
    (hrange : r.ownRange.first ≤ r.ownRange.last)
    (h : r.associate parent kind child = .ok (s, k, changed)) :
    s.ownRange = r.ownRange ∧ (∀ j, j ≠ k → s.get? j = r.get? j) ∧
      (∃ b, Longer r s k [(child, k)] b ∧ child ∈ b.children) ∧
      (changed = false → s = r) ∧
      (changed = true → ∀ a, r.reading? k = some a → child ∉ a.children) := by
  rcases associate_reading hrange h with ⟨a, ha, -, -, hmem, rfl, rfl⟩ |
    ⟨rfl, hown, hothers, b, hread, hplace⟩
  · exact ⟨rfl, fun _ _ => rfl, ⟨a, ⟨ha, [], by simp, .inl ⟨a, ha, by simp⟩⟩, hmem⟩,
      fun _ => rfl, by simp⟩
  · have hb : s.reading? k = some b := by rw [hread, if_pos rfl]
    have hextra : ∀ c ∈ [child], (c, k) ∈ [(child, k)] := by simp
    rcases hplace with ⟨a, ha, -, -, hmem, rfl⟩ | ⟨-, hfree, rfl⟩
    · refine ⟨hown, hothers, ⟨_, ⟨hb, [child], hextra, .inl ⟨a, ha, rfl⟩⟩, ?_⟩, by simp, ?_⟩
      · simp [Association.adding]
      · intro _ a' ha'
        obtain rfl := Option.some.inj (ha.symm.trans ha')
        exact hmem
    · refine ⟨hown, hothers, ⟨_, ⟨hb, [child], hextra, .inr ⟨hfree, rfl⟩⟩, by simp⟩, by simp, ?_⟩
      intro _ a ha
      simp [reading?_of_get?_none hfree] at ha

section merge

/-- A node is new just if the tree did not hold its entity. -/
theorem isNew_of_attached {t u : Containment} {placement : Placement}
    (h : t.attach i e .host = .ok (u, placement)) :
    (placement.isNew = true ∧ ¬ t.Has e) ∨ (placement.isNew = false ∧ u = t) := by
  obtain ⟨above, -, ⟨j, m, -, -, -, rfl, rfl⟩ | ⟨hnone, -, rfl⟩⟩ := attach_eq_ok h
  · exact .inr ⟨rfl, rfl⟩
  · exact .inl ⟨rfl, findExact?_eq_none_iff.mp hnone⟩

theorem mergeChild_brings {record : Option RecordHandle} (hx : x.tree.Forest)
    (hrange : x.repository.ownRange.first ≤ x.repository.ownRange.last)
    (hn : x.tree.node? i = some n)
    (h : x.mergeChild i parent kind child = (y, .ok record)) :
    BringsIn i parent kind x y (record.map fun k => (child, k)).toList := by
  rcases mergeChild_eq_ok h with
    ⟨rfl, rfl, -⟩ | ⟨tree, placement, s, k, changed, hattach, hassociate, rfl, rfl⟩
  · exact .of_same hx rfl rfl rfl
  · suffices hlisted : BringsIn i parent kind x { x.grow tree placement child with repository := s }
        ((if placement.isNew ∨ changed then some k else none).map fun k => (child, k)).toList by
      cases changed
      · exact hlisted
      · exact hlisted.congr ⟨rfl, rfl, rfl⟩ ⟨rfl, rfl, rfl⟩
    have hsettings := x.grow_settings tree placement child
    obtain ⟨hfound, hsame⟩ := findAssociation?_associate_reading hrange hassociate
    obtain ⟨hown, hothers, hlonger, hunchanged, hadded⟩ := longer_of_associate hrange hassociate
    have hgrows {base : Containment} (h : Grows base x.tree) : Grows base tree := h.attach hattach
    have hforest := attach_forest hx hattach
    have hplacement := isNew_of_attached hattach
    by_cases hnew : placement.isNew = true ∨ changed = true
    · rw [if_pos hnew]
      refine ⟨hsettings, hown, ?_, ?_, ?_, ?_, ?_, ?_, ?_⟩
      all_goals simp only [grow_tree, Option.map_some, Option.toList_some, List.map_cons,
        List.map_nil, List.mem_singleton, Prod.mk.injEq]
      · exact hgrows
      · exact .attach hx hn hattach
      · exact hforest
      · rintro j (⟨e, rfl, rfl⟩ | hj)
        · exact hfound
        · exact hsame j hj ▸ hfound
      · exact fun hj => hothers _ fun hjk => hj child ⟨rfl, hjk⟩
      · rintro e j ⟨rfl, rfl⟩
        exact hlonger
      · rintro e j a ⟨rfl, rfl⟩ hhas ha
        rcases hplacement with ⟨-, hmissing⟩ | ⟨hpresent, -⟩
        · exact absurd hhas hmissing
        · exact hadded (hnew.resolve_left (by simp [hpresent])) a ha
    · obtain ⟨hpresent, hchanged⟩ := not_or.mp hnew
      have hkept : tree = x.tree :=
        (hplacement.resolve_left fun hcreated => hpresent hcreated.1).2
      rw [if_neg hnew]
      exact .of_same hx hsettings (hunchanged (by simpa using hchanged))
        ((grow_tree ..).trans hkept)

/-- Merging children brings in those that are given. -/
theorem mergeChildren_brings {children : List Entity} (hx : x.tree.Forest)
    (hrange : x.repository.ownRange.first ≤ x.repository.ownRange.last)
    (hn : x.tree.node? i = some n)
    (h : mergeChildren i parent kind children x = (y, .ok new)) : BringsIn i parent kind x y new := by
  induction children generalizing x n new with
  | nil =>
    obtain ⟨rfl, hnew⟩ := Prod.mk.inj h
    obtain rfl := Except.ok.inj hnew
    exact .of_same hx rfl rfl rfl
  | cons child rest ih =>
    obtain ⟨z, record, more, hchild, hrest, rfl⟩ := mergeChildren_cons_eq_ok h
    have hfirst := mergeChild_brings hx hrange hn hchild
    obtain ⟨m, hm, -⟩ := hfirst.gains.kept hn
    exact hfirst.trans (ih hfirst.forest (hfirst.ownRange ▸ hrange) hm hrest)

/-- A merge brings in what it has contributed, and notes it if there is any. -/
theorem merge_brings_contribution {h : RecordHandle} {a : Association} (hx : x.tree.Forest)
    (hrange : x.repository.ownRange.first ≤ x.repository.ownRange.last)
    (hfree : x.imports[h]? = none) (hmerge : x.merge h a = (y, .ok ())) :
    (∃ i parent, BringsIn i parent a.kind x y (y.contribution h)) ∧
      ((y.contribution h = [] ∧ y.imports = x.imports) ∨
        ∃ parent k, (∀ p ∈ y.contribution h, p.2 = k) ∧ y.repository.Legible k ∧ y.imports =
          x.imports.insert h (.merged parent ((y.contribution h).map Prod.fst) k)) := by
  have hnone {z : Exchange} (hz : z.imports = x.imports) : z.contribution h = [] := by
    simp only [contribution, hz, hfree]
  rcases x.merge_cases h a with
    heq | ⟨i, parent, z, hnode, hparent, ⟨e, -, heq⟩ | ⟨new, hchildren, hcases⟩⟩
  · obtain ⟨rfl, -⟩ := Prod.mk.inj (heq.symm.trans hmerge)
    have hnil : x.skip.contribution h = [] := hnone rfl
    rw [hnil]
    exact ⟨⟨0, a.container, .of_same hx rfl rfl rfl⟩, .inl ⟨rfl, rfl⟩⟩
  · simp [heq] at hmerge
  · obtain ⟨n, hn, rfl⟩ := entity?_eq_some.mp hparent
    have hbrings := mergeChildren_brings (x := x.findParent) hx hrange hn hchildren
    obtain ⟨htends, hlegible⟩ := mergeChildren_tends i n.entity a.kind a.children x.findParent
    rw [hchildren] at htends hlegible
    have himports : z.imports = x.imports := htends.imports
    rcases hcases with ⟨rfl, heq⟩ | ⟨child, k, hlast, heq⟩
    · obtain ⟨rfl, -⟩ := Prod.mk.inj (heq.symm.trans hmerge)
      have hnil : contribution { z with counts.merged := z.counts.merged + 1 } h = [] :=
        hnone himports
      rw [hnil]
      exact ⟨⟨i, n.entity, hbrings.congr ⟨rfl, rfl, rfl⟩ ⟨rfl, rfl, rfl⟩⟩, .inl ⟨rfl, himports⟩⟩
    · obtain ⟨rfl, -⟩ := Prod.mk.inj (heq.symm.trans hmerge)
      have hall : ∀ p ∈ new, p.2 = k := fun p hp => hbrings.record_eq hp hlast
      have hcontribution : contribution { z with
          counts.merged := z.counts.merged + 1
          imports := z.imports.insert h (.merged n.entity (new.map Prod.fst) k) } h = new := by
        have hsame : new.map (fun p => (p.1, k)) = new.map id :=
          List.map_congr_left fun p hp => by rw [← hall p hp]; rfl
        simpa [contribution, imports_insert, Function.comp_def] using hsame
      rw [hcontribution]
      exact ⟨⟨i, n.entity, hbrings.congr ⟨rfl, rfl, rfl⟩ ⟨rfl, rfl, rfl⟩⟩,
        .inr ⟨n.entity, k, hall, hlegible new rfl _ hlast, by rw [himports]⟩⟩

end merge

end Exchange
end DescriptorExchange
