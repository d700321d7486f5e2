import DescriptorExchange.Proofs.Exchange.Grafting
import DescriptorExchange.Proofs.Exchange.Steps

/-!
Merges of the exchange, and taking them back. Whatever order merges are taken back in, none of it
fails, and what is left is claimed by the merges that are left.
-/
namespace DescriptorExchange.Exchange

open Repository Containment

/-- The children a merge has contributed, with the record they were listed in. -/
def claims (imports : List Import) (e : Entity) (k : RecordHandle) : Prop :=
  ∃ parent children, Import.merged parent children k ∈ imports ∧ e ∈ children

/-- What the remembered imports claim. -/
abbrev claimed (x : Exchange) : Entity → RecordHandle → Prop :=
  claims (x.imports.toList.map Prod.snd)

section claims

variable {imports : Std.ExtTreeMap RecordHandle Import} {h : RecordHandle} {i : Import} {e : Entity}
  {k : RecordHandle}

theorem imports_erase (j : RecordHandle) :
    (imports.erase h)[j]? = if j = h then none else imports[j]? := by
  simp only [Std.ExtTreeMap.getElem?_erase, Std.LawfulEqCmp.compare_eq_iff_eq]
  grind

theorem imports_insert (j : RecordHandle) :
    (imports.insert h i)[j]? = if j = h then some i else imports[j]? := by
  simp only [Std.ExtTreeMap.getElem?_insert, Std.LawfulEqCmp.compare_eq_iff_eq]
  grind

theorem claims_toList : claims (imports.toList.map Prod.snd) e k ↔
    ∃ (h : RecordHandle) (parent : Entity) (children : List Entity),
      imports[h]? = some (.merged parent children k) ∧ e ∈ children := by
  simp only [claims, List.mem_map, Prod.exists, exists_eq_right,
    Std.ExtTreeMap.mem_toList_iff_getElem?_eq_some]
  grind

theorem claims_insert (hnew : imports[h]? = none) :
    claims ((imports.insert h i).toList.map Prod.snd) e k ↔
    claims (imports.toList.map Prod.snd) e k ∨ claims [i] e k := by
  simp only [claims_toList, Std.ExtTreeMap.getElem?_insert, Std.LawfulEqCmp.compare_eq_iff_eq]
  simp only [claims, List.mem_singleton]
  constructor
  · rintro ⟨j, parent, children, hj, he⟩
    split_ifs at hj with hjh
    · exact .inr ⟨parent, children, (Option.some.inj hj).symm, he⟩
    · exact .inl ⟨j, parent, children, hj, he⟩
  · rintro (⟨j, parent, children, hj, he⟩ | ⟨parent, children, rfl, he⟩)
    · refine ⟨j, parent, children, ?_, he⟩
      rw [if_neg fun hjh => by simp [← hjh, hnew] at hj, hj]
    · exact ⟨h, parent, children, if_pos rfl, he⟩

theorem claims_erase (hi : imports[h]? = some i) (hc : claims (imports.toList.map Prod.snd) e k) :
    claims ((imports.erase h).toList.map Prod.snd) e k ∨ claims [i] e k := by
  obtain ⟨j, parent, children, hj, he⟩ := claims_toList.mp hc
  by_cases hjh : h = j
  · subst hjh
    obtain rfl := Option.some.inj (hi.symm.trans hj)
    exact .inr ⟨parent, children, List.mem_singleton_self _, he⟩
  · refine .inl (claims_toList.mpr ⟨j, parent, children, ?_, he⟩)
    rw [Std.ExtTreeMap.getElem?_erase, if_neg (by simpa using hjh), hj]

theorem claims_of_erase (hc : claims ((imports.erase h).toList.map Prod.snd) e k) :
    claims (imports.toList.map Prod.snd) e k := by
  obtain ⟨j, parent, children, hj, he⟩ := claims_toList.mp hc
  rw [Std.ExtTreeMap.getElem?_erase] at hj
  split_ifs at hj
  exact claims_toList.mpr ⟨j, parent, children, hj, he⟩

theorem claims_stored : ¬ claims [.stored h] e k := by simp [claims]

theorem claims_merged {parent : Entity} {children : List Entity} :
    claims [.merged parent children h] e k ↔ e ∈ children ∧ k = h := by
  simp only [claims, List.mem_singleton, Import.merged.injEq]
  grind

end claims

/-- Only listings, the tree and what the inventory has been told differ. -/
def Regrown (x y : Exchange) : Prop :=
  ∃ repository tree notices, y = { x with repository, tree, notices } ∧
  Relisted x.repository repository

variable {x y z : Exchange} {r₀ : Repository} {t₀ : Containment}
  {held rest : Entity → RecordHandle → Prop}
  {k : RecordHandle} {child : Entity} {children : List Entity}

namespace Regrown

theorem refl (hx : x.repository.Tidy) : x.Regrown x := ⟨_, _, _, rfl, .refl hx⟩

theorem trans (hxy : x.Regrown y) (hyz : y.Regrown z) : x.Regrown z := by
  obtain ⟨_, _, _, rfl, hrs⟩ := hxy
  obtain ⟨_, _, _, rfl, hst⟩ := hyz
  exact ⟨_, _, _, rfl, hrs.trans hst⟩

theorem settings (h : x.Regrown y) : y.settings = x.settings := by
  obtain ⟨_, _, _, rfl, -⟩ := h
  rfl

theorem imports (h : x.Regrown y) : y.imports = x.imports := by
  obtain ⟨_, _, _, rfl, -⟩ := h
  rfl

theorem relisted (h : x.Regrown y) : Relisted x.repository y.repository := by
  obtain ⟨_, _, _, rfl, hrs⟩ := h
  exact hrs

end Regrown

theorem unmerge_issued (x : Exchange) (record : RecordHandle) (child : Entity) :
    (x.unmerge record child).1.tree.issued = x.tree.issued := by
  rcases x.unmerge_cases record child with ⟨-, heq⟩ | ⟨id, notices, touched, -, -, -, heq⟩ |
    ⟨id, -, -, ⟨-, heq⟩ | ⟨entry, -, heq⟩⟩
  · rw [heq]
  · simp [heq]
  · rw [heq]
  · rw [heq]
    cases x.repository.removeChild record child <;> rfl

/-- Taking merges back makes no nodes. -/
theorem unmergeAll_issued (k : RecordHandle) (children : List Entity) (x : Exchange) :
    (unmergeAll k children x).1.tree.issued = x.tree.issued :=
  unmergeAll_induction (p := fun y => y.tree.issued = x.tree.issued)
    (fun y child hy => (unmerge_issued y k child).trans hy) children rfl

/-- The topology with merges in it, as part of the exchange. -/
structure GraftedIn (r₀ : Repository) (t₀ : Containment) (x : Exchange)
    (held : Entity → RecordHandle → Prop) : Prop where
  range : x.settings.ownRange = r₀.ownRange
  grafted : Grafted r₀ t₀ x.repository x.tree held

theorem GraftedIn.mono (h : GraftedIn r₀ t₀ x held) (hsub : ∀ e j, held e j → rest e j) :
    GraftedIn r₀ t₀ x rest := ⟨h.range, h.grafted.mono hsub⟩

/-- Passing over merges that fail makes no difference where none does. -/
theorem retractChildren_of_unmergeAll {touched : List RecordHandle}
    (h : unmergeAll k children x = (y, .ok touched)) :
    retractChildren k children x = (y, touched) := by
  induction children generalizing x touched with
  | nil =>
    obtain ⟨rfl, rfl⟩ : x = y ∧ [] = touched := by simpa [unmergeAll] using h
    rfl
  | cons child children ih =>
    unfold unmergeAll at h
    split at h
    next => simp at h
    next mid first heq =>
      split at h
      next => simp at h
      next last more heq' =>
        obtain ⟨rfl, rfl⟩ : last = y ∧ first ++ more = touched := by simpa using h
        simp only [retractChildren, heq, ih heq']
        rfl

section unmerge

variable (hbase : Planted r₀ t₀)
include hbase

/-- Taking back what is claimed does not fail, and leaves the other claims. -/
theorem unmerge_grafted (h : GraftedIn r₀ t₀ x held)
    (hharmless : Harmless r₀ fun e j => e = child ∧ j = k)
    (hrest : ∀ e j, held e j → rest e j ∨ (e = child ∧ j = k)) :
    ∃ y touched, x.unmerge k child = (y, .ok touched) ∧ x.Regrown y ∧ GraftedIn r₀ t₀ y rest := by
  obtain ⟨hin, hfresh, hlabel⟩ := hharmless child k ⟨rfl, rfl⟩
  rcases x.unmerge_cases k child with
    ⟨hgone, heq⟩ | ⟨id, notices, touched, hfind, horigin, -, heq⟩ | ⟨id, hfind, horigin, hrecord⟩
  · exact ⟨x, [], heq, .refl h.grafted.repository.tidy, h.range,
      h.grafted.unclaim_of_gone hgone fun e j hc => (hrest e j hc).imp_right And.left⟩
  · obtain ⟨n, hn, rfl⟩ := findExact?_eq_some hfind
    have hhost : n.origin = .host := by simpa [origin?, hn] using horigin
    have hown : x.settings.ownRange = x.repository.ownRange :=
      h.range.trans h.grafted.repository.ownRange.symm
    rw [hown] at heq
    obtain ⟨hrs, hgrafted⟩ := h.grafted.unmerge_guest hbase hn hhost fun e j hc =>
      (hrest e j hc).imp_right And.left
    exact ⟨_, _, heq, ⟨_, _, _, rfl, hrs⟩, h.range, hgrafted⟩
  · obtain ⟨n, hn, rfl⟩ := findExact?_eq_some hfind
    have hown : n.origin ≠ .host := by simpa [origin?, hn] using horigin
    rcases hrecord with ⟨hnone, heq⟩ | ⟨record, hget, heq⟩
    · refine ⟨x, [], heq, .refl h.grafted.repository.tidy, h.range,
        h.grafted.unmerge_own hbase hn hown hfresh
        (.refl h.grafted.repository.tidy) (fun j b => ?_) hrest⟩
      have hne {a : Association} (ha : x.repository.Holds j a) : j ≠ k := by
        rintro rfl
        simp [ha.get] at hnone
      refine ⟨fun hb => ⟨b, hb, if_neg (hne hb)⟩, fun ⟨a, ha, hab⟩ => ?_⟩
      rw [if_neg (hne ha)] at hab
      exact Option.some.inj hab ▸ ha
    · obtain ⟨a, ha⟩ := h.grafted.repository.holds_of_get? hin hlabel hget
      obtain ⟨s, changed, hremove, hrs, hholds⟩ :=
        removeChild_relisted h.grafted.repository.tidy ha n.entity
      rw [hremove] at heq
      exact ⟨_, _, heq, ⟨_, _, _, rfl, hrs⟩, h.range,
        h.grafted.unmerge_own hbase hn hown hfresh hrs hholds hrest⟩

theorem unmergeAll_grafted (h : GraftedIn r₀ t₀ x held)
    (hharmless : Harmless r₀ fun e j => e ∈ children ∧ j = k)
    (hrest : ∀ e j, held e j → rest e j ∨ (e ∈ children ∧ j = k)) :
    ∃ y touched, unmergeAll k children x = (y, .ok touched) ∧ x.Regrown y ∧
      GraftedIn r₀ t₀ y rest := by
  induction children generalizing x held with
  | nil =>
    exact ⟨x, [], rfl, .refl h.grafted.repository.tidy,
      h.mono fun e j hc => (hrest e j hc).resolve_right (by simp)⟩
  | cons child children ih =>
    have hfirst : ∃ y touched, x.unmerge k child = (y, .ok touched) ∧ x.Regrown y ∧
        GraftedIn r₀ t₀ y fun e j => held e j ∧ ¬ (e = child ∧ j = k) :=
      unmerge_grafted hbase h (fun e j he => hharmless e j ⟨by simp [he.1], he.2⟩) fun e j hc => by
        by_cases he : e = child ∧ j = k
        · exact .inr he
        · exact .inl ⟨hc, he⟩
    obtain ⟨y, touched, hchild, hxy, hy⟩ := hfirst
    obtain ⟨z, more, hchildren, hyz, hz⟩ := ih hy
      (fun e j he => hharmless e j ⟨List.mem_cons_of_mem _ he.1, he.2⟩) fun e j ⟨hc, hne⟩ => by
        rcases hrest e j hc with hc | ⟨he, hj⟩
        · exact .inl hc
        · exact .inr ⟨(List.mem_cons.mp he).resolve_left fun he => hne ⟨he, hj⟩, hj⟩
    exact ⟨z, touched ++ more, by simp only [unmergeAll, hchild, hchildren], hxy.trans hyz, hz⟩

theorem retractImports_grafted {imports : List Import} (h : GraftedIn r₀ t₀ x held)
    (hharmless : Harmless r₀ (claims imports))
    (hrest : ∀ e j, held e j → rest e j ∨ claims imports e j) :
    ∃ y touched, retractImports imports x = (y, touched) ∧ x.Regrown y ∧
      GraftedIn r₀ t₀ y rest := by
  induction imports generalizing x held with
  | nil =>
    exact ⟨x, [], rfl, .refl h.grafted.repository.tidy,
      h.mono fun e j hc => (hrest e j hc).resolve_right (by simp [claims])⟩
  | cons i imports ih =>
    cases i with
    | stored handle =>
      have hclaims (e : Entity) (j : RecordHandle) :
          claims (.stored handle :: imports) e j ↔ claims imports e j := by simp [claims]
      exact ih h (fun e j hc => hharmless e j ((hclaims e j).mpr hc)) fun e j hc =>
        (hrest e j hc).imp_right (hclaims e j).mp
    | merged parent children k =>
      have hclaims (e : Entity) (j : RecordHandle) :
          claims (.merged parent children k :: imports) e j ↔
          (e ∈ children ∧ j = k) ∨ claims imports e j := by
        simp only [claims, List.mem_cons, Import.merged.injEq]
        grind
      have hfirst : ∃ y touched, unmergeAll k children x = (y, .ok touched) ∧ x.Regrown y ∧
          GraftedIn r₀ t₀ y fun e j => held e j ∧ ¬ (e ∈ children ∧ j = k) :=
        unmergeAll_grafted hbase h (fun e j he => hharmless e j ((hclaims e j).mpr (.inl he)))
          fun e j hc => by
            by_cases he : e ∈ children ∧ j = k
            · exact .inr he
            · exact .inl ⟨hc, he⟩
      obtain ⟨y, touched, hchildren, hxy, hy⟩ := hfirst
      obtain ⟨z, more, himports, hyz, hz⟩ := ih hy
        (fun e j hc => hharmless e j ((hclaims e j).mpr (.inr hc))) fun e j ⟨hc, hne⟩ =>
          (hrest e j hc).imp_right fun hc => ((hclaims e j).mp hc).resolve_left hne
      replace hchildren := retractChildren_of_unmergeAll hchildren
      exact ⟨z, touched ++ more, by simp only [retractImports, hchildren, himports],
        hxy.trans hyz, hz⟩

/-- Taking back every merge leaves nothing that is claimed. -/
theorem retractMerges_grafted (h : GraftedIn r₀ t₀ x x.claimed)
    (hharmless : Harmless r₀ x.claimed) :
    ∃ y touched, x.retractMerges = (y, touched) ∧ Regrown { x with imports := ∅ } y ∧
      GraftedIn r₀ t₀ y fun _ _ => False :=
  retractImports_grafted hbase (x := { x with imports := ∅ }) ⟨h.range, h.grafted⟩ hharmless
    fun _ _ hc => .inr hc

end unmerge

end DescriptorExchange.Exchange
