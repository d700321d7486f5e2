import DescriptorExchange.Proofs.Exchange.Undoing

/-!
What a resync takes out when it begins. The imports are all it goes by: it takes back each child
that one of them claims, and nothing else. This needs less than that everything of the host is
claimed, so it also says what a resync finds and leaves behind after a merge that has failed.
-/
namespace DescriptorExchange.Exchange

open Repository Containment

variable {x y z : Exchange} {r₀ : Repository} {t₀ : Containment} {k : RecordHandle} {e : Entity}
  {es : List Entity} {taken more : List (Entity × RecordHandle)} {imports : List Import}

/-- The children that merges have contributed, each with the record it was listed in. -/
def mergedPairs : List Import → List (Entity × RecordHandle)
  | [] => []
  | .stored _ :: rest => mergedPairs rest
  | .merged _ children k :: rest => children.map (fun e => (e, k)) ++ mergedPairs rest

theorem mem_mergedPairs : (e, k) ∈ mergedPairs imports ↔ claims imports e k := by
  induction imports with
  | nil => simp [mergedPairs, claims]
  | cons i rest ih =>
    cases i with
    | stored handle =>
      rw [mergedPairs, ih]
      simp [claims]
    | merged parent children handle =>
      rw [mergedPairs, List.mem_append, ih]
      simp only [claims, List.mem_map, List.mem_cons, Prod.mk.injEq, Import.merged.injEq]
      grind

/-- The entities that the remembered imports claim. -/
def claimedEntities (x : Exchange) : List Entity :=
  (mergedPairs (x.imports.toList.map Prod.snd)).map Prod.fst

theorem mem_claimedEntities : e ∈ x.claimedEntities ↔ ∃ k, x.claimed e k := by
  simp only [claimedEntities, List.mem_map, Prod.exists, exists_and_right, exists_eq_right,
    mem_mergedPairs]

/-- Children have been taken back, each from the record it was listed in. -/
structure TakenBack (taken : List (Entity × RecordHandle)) (x y : Exchange) : Prop where
  tree : x.tree.Uproots (taken.map Prod.fst) y.tree
  names : ∀ j p c, y.repository.Names j p c ↔ x.repository.Names j p c ∧ (c, j) ∉ taken ∧
    ¬ x.tree.Loses (taken.map Prod.fst) p ∧ ¬ x.tree.Loses (taken.map Prod.fst) c

namespace TakenBack

theorem refl (hx : x.tree.Forest) : TakenBack [] x x where
  tree := .of_none hx fun j hj => by simp [Uprooted] at hj
  names j p c := by simp [Loses, Uprooted]

theorem trans (hx : x.tree.Forest) (hxy : TakenBack taken x y) (hyz : TakenBack more y z) :
    TakenBack (taken ++ more) x z where
  tree := by
    rw [List.map_append]
    exact hxy.tree.trans hx hyz.tree
  names j p c := by
    rw [hyz.names, hxy.names, List.map_append, hxy.tree.loses_append hx,
      hxy.tree.loses_append hx, List.mem_append]
    grind

end TakenBack

/-- The children of one record. -/
theorem Unmerged.takenBack (h : Unmerged k es x y) : TakenBack (es.map fun e => (e, k)) x y := by
  have hentities : (es.map fun e => (e, k)).map Prod.fst = es := by
    simp [Function.comp_def]
  refine ⟨hentities.symm ▸ h.tree, ?_⟩
  intro j p c
  have hmem : (c, j) ∈ es.map (fun e => (e, k)) ↔ j = k ∧ c ∈ es := by
    simp [and_comm, eq_comm]
  rw [hentities, hmem]
  exact h.names j p c

/-- A resync has begun: what the imports claim has been taken out of the topology and the listings,
and of the records none but the controller's own are left. -/
structure Cleared (r₀ : Repository) (x y : Exchange) : Prop where
  imports : y.imports = ∅
  termini : y.termini = ∅
  own : ∀ {k record}, y.repository.get? k = some record → r₀.ownRange.contains k = true
  tree : x.tree.Uproots x.claimedEntities y.tree
  names : ∀ j p c, y.repository.Names j p c ↔ x.repository.Names j p c ∧ ¬ x.claimed c j ∧
    ¬ x.tree.Loses x.claimedEntities p ∧ ¬ x.tree.Loses x.claimedEntities c

section clearing

variable (hbase : Planted r₀ t₀)
include hbase

/-- Taking imports back takes back what they claim. -/
theorem retractImports_takenBack (h : HousedIn r₀ t₀ x) (hharmless : Harmless r₀ (claims imports)) :
    ∃ y touched, retractImports imports x = (y, touched) ∧ x.Regrown y ∧
      TakenBack (mergedPairs imports) x y ∧ HousedIn r₀ t₀ y := by
  induction imports generalizing x with
  | nil => exact ⟨x, [], rfl, .refl h.repository.tidy, .refl h.tree.forest, h⟩
  | cons i rest ih =>
    have hrest : Harmless r₀ (claims rest) := by
      rintro e j ⟨parent, children, hmem, he⟩
      exact hharmless e j ⟨parent, children, List.mem_cons_of_mem _ hmem, he⟩
    cases i with
    | stored handle => exact ih h hrest
    | merged parent children handle =>
      have hchildren : Harmless r₀ fun e j => e ∈ children ∧ j = handle := by
        rintro e j ⟨he, rfl⟩
        exact hharmless e j ⟨parent, children, List.mem_cons_self, he⟩
      obtain ⟨y, touched, hall, hxy, hfirst, hy⟩ := unmergeAll_unmerged hbase h hchildren
      obtain ⟨z, more, himports, hyz, hlater, hz⟩ := ih hy hrest
      have hretract : retractImports (.merged parent children handle :: rest) x =
          (z, touched ++ more) := by
        simp only [retractImports, retractChildren_of_unmergeAll hall, himports]
      exact ⟨z, touched ++ more, hretract, hxy.trans hyz,
        hfirst.takenBack.trans h.tree.forest hlater, hz⟩

/-- Beginning a resync takes out what the imports claim, and nothing else but the records of the
host. -/
theorem beginResync_clears (h : HousedIn r₀ t₀ x) (hharmless : Harmless r₀ x.claimed)
    (hhost : x.settings.hostRange = r₀.hostRange) :
    Cleared r₀ x x.beginResync.1 ∧ HousedIn r₀ t₀ x.beginResync.1 := by
  let begun : Exchange := { (x.startCycle .chain [RecordHandle.terminator]).1 with imports := ∅ }
  have hbegun : HousedIn r₀ t₀ begun := h.congr rfl rfl rfl
  obtain ⟨z, retracted, hretract, hxz, htaken, hz⟩ :=
    retractImports_takenBack hbase hbegun hharmless
  have hretract : (x.startCycle .chain [RecordHandle.terminator]).1.retractMerges =
      (z, retracted) := hretract
  have hrange : z.settings.hostRange = r₀.hostRange := hxz.settings ▸ hhost
  have hresync : x.beginResync.1 =
      ({ z with
        repository := (z.repository.removeRange r₀.hostRange).1
        termini := ∅
        phase := .awaitingFirstRecord }.touch retracted).touch
          ((z.repository.removeRange r₀.hostRange).2.map Prod.fst) := by
    simp only [beginResync, hretract, ← hrange]
  have hholds {k : RecordHandle} {a : Association} :
      (z.repository.removeRange r₀.hostRange).1.Holds k a ↔ z.repository.Holds k a :=
    hz.repository.holds_removeRange hbase.ranges
  have hnames (j : RecordHandle) (p c : Entity) :
      (z.repository.removeRange r₀.hostRange).1.Names j p c ↔ z.repository.Names j p c := by
    simp only [Names, hholds]
  have hext := hz.repository.removeRange hbase.ranges
  rw [hresync]
  refine ⟨⟨hxz.imports, rfl, ?_, htaken.tree, ?_⟩, ⟨hz.range, hext, hz.tree, ?_⟩⟩
  · intro k record hget
    change (z.repository.removeRange r₀.hostRange).1.get? k = _ at hget
    rw [hz.repository.get?_removeRange hbase.ranges] at hget
    split_ifs at hget with hin
    exact hin
  · intro j p c
    have hpair : (c, j) ∈ mergedPairs (x.imports.toList.map Prod.snd) ↔ x.claimed c j :=
      mem_mergedPairs
    rw [← hpair]
    exact (hnames j p c).trans (htaken.names j p c)
  · intro p c hlists
    obtain ⟨j, hj⟩ := hext.tidy.lists_iff.mp hlists
    exact hz.contains p c (hz.repository.tidy.lists_iff.mpr ⟨j, (hnames j p c).mp hj⟩)

end clearing

end DescriptorExchange.Exchange
