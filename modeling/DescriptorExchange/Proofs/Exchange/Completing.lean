import DescriptorExchange.Exchange.Cycle
import DescriptorExchange.Proofs.Repository.InPlace

/-!
Passes of the exchange over the repository that end at the first failure. None of the operations they
repeat ever fails, so each pass comes to its end: all entities are stripped, a cycle with nothing left to
ask for completes, and all termini are marked.
-/
namespace DescriptorExchange

/-- The container that a fix-up copies. -/
def ContainerFixup.container? (f : ContainerFixup) (settings : ExchangeSettings) (r : Repository) :
    Option UInt16 :=
  (r.findContainer? f.entityType f.entityNumber settings.hostRange).or
    (r.findContainer? f.entityType f.entityNumber settings.ownRange)

namespace Exchange

open Repository

section strip

variable {range : HandleRange} {r : Repository} {k : RecordHandle}

theorem stripAll_cons (range : HandleRange) (e : Entity) (rest : List Entity) (r : Repository) :
    stripAll range (e :: rest) r =
      ((stripAll range rest (r.strip e range).1).1,
        (stripAll range rest (r.strip e range).1).2.map ((r.naming e range).map Prod.fst ++ ·)) := by
  simp only [stripAll, strip_eq]

theorem stripAll_ok (range : HandleRange) (es : List Entity) (r : Repository) :
    ∃ touched, (stripAll range es r).2 = .ok touched := by
  induction es generalizing r with
  | nil => exact ⟨[], rfl⟩
  | cons e rest ih =>
    obtain ⟨more, hmore⟩ := ih (r.strip e range).1
    exact ⟨_, by rw [stripAll_cons, hmore]; rfl⟩

theorem stripAll_induction {p : Repository → Prop} (hstep : ∀ s e, p s → p (s.strip e range).1)
    (es : List Entity) (hr : p r) : p (stripAll range es r).1 := by
  induction es generalizing r with
  | nil => exact hr
  | cons e rest ih =>
    rw [stripAll_cons]
    exact ih (hstep r e hr)

/-- Only the records that are given have changed or gone. -/
theorem get?_stripAll {touched : List RecordHandle} {es : List Entity}
    (h : (stripAll range es r).2 = .ok touched) (hk : k ∉ touched) :
    (stripAll range es r).1.get? k = r.get? k := by
  induction es generalizing r touched with
  | nil => rfl
  | cons e rest ih =>
    rw [stripAll_cons] at h ⊢
    obtain ⟨more, hmore⟩ := stripAll_ok range rest (r.strip e range).1
    rw [hmore] at h
    obtain rfl := Except.ok.inj h
    rw [List.mem_append, not_or] at hk
    exact (ih hmore hk.2).trans (get?_strip_of_not_mem e range hk.1)

end strip

section fixups

variable {settings : ExchangeSettings} {r : Repository} {k : RecordHandle}

theorem applyFixup_def (settings : ExchangeSettings) (f : ContainerFixup) (r : Repository) :
    applyFixup settings f r = match f.container? settings r with
      | some container => r.setEffecterContainer f.effecterId container
      | none => (r, .ok none) := rfl

theorem applyFixup_ok (settings : ExchangeSettings) (f : ContainerFixup) (r : Repository) :
    ∃ changed, (applyFixup settings f r).2 = .ok changed := by
  rw [applyFixup_def]
  cases f.container? settings r with
  | none => exact ⟨none, rfl⟩
  | some container => exact setEffecterContainer_ok _ _ _

theorem get?_applyFixup {f : ContainerFixup} (hk : (applyFixup settings f r).2 ≠ .ok (some k)) :
    (applyFixup settings f r).1.get? k = r.get? k := by
  rw [applyFixup_def] at hk ⊢
  cases hcontainer : f.container? settings r with
  | none => rfl
  | some container =>
    rw [hcontainer] at hk
    exact get?_setEffecterContainer_of_ne hk

/-- The records that fix-ups change. -/
def fixedRecords (settings : ExchangeSettings) (fixups : List ContainerFixup) (r : Repository) :
    List RecordHandle :=
  (applyFixups settings fixups r).2.toOption.getD []

theorem applyFixups_cons (settings : ExchangeSettings) (f : ContainerFixup) (rest : List ContainerFixup)
    (r : Repository) : ∃ changed, (applyFixup settings f r).2 = .ok changed ∧
      applyFixups settings (f :: rest) r =
        ((applyFixups settings rest (applyFixup settings f r).1).1,
          (applyFixups settings rest (applyFixup settings f r).1).2.map (changed.toList ++ ·)) := by
  obtain ⟨changed, hchanged⟩ := applyFixup_ok settings f r
  have hfixup : applyFixup settings f r = ((applyFixup settings f r).1, .ok changed) :=
    Prod.ext rfl hchanged
  refine ⟨changed, hchanged, ?_⟩
  rw [applyFixups, hfixup]

theorem applyFixups_cons_fst (settings : ExchangeSettings) (f : ContainerFixup)
    (rest : List ContainerFixup) (r : Repository) : (applyFixups settings (f :: rest) r).1 =
      (applyFixups settings rest (applyFixup settings f r).1).1 := by
  obtain ⟨changed, -, heq⟩ := applyFixups_cons settings f rest r
  rw [heq]

theorem applyFixups_induction {p : Repository → Prop} {fixups : List ContainerFixup}
    (hstep : ∀ s, ∀ f ∈ fixups, p s → p (applyFixup settings f s).1) (hr : p r) :
    p (applyFixups settings fixups r).1 := by
  induction fixups generalizing r with
  | nil => exact hr
  | cons f rest ih =>
    rw [applyFixups_cons_fst]
    exact ih (fun s g hg => hstep s g (List.mem_cons_of_mem _ hg)) (hstep r f List.mem_cons_self hr)

theorem applyFixups_eq (settings : ExchangeSettings) (fixups : List ContainerFixup) (r : Repository) :
    applyFixups settings fixups r =
      ((applyFixups settings fixups r).1, .ok (fixedRecords settings fixups r)) := by
  refine Prod.ext rfl ?_
  induction fixups generalizing r with
  | nil => rfl
  | cons f rest ih =>
    obtain ⟨changed, -, heq⟩ := applyFixups_cons settings f rest r
    rw [fixedRecords, heq, ih]
    rfl

/-- Fix-ups leave all records as they are but those they are said to change. -/
theorem get?_applyFixups_of_not_mem {fixups : List ContainerFixup}
    (hk : k ∉ fixedRecords settings fixups r) :
    (applyFixups settings fixups r).1.get? k = r.get? k := by
  induction fixups generalizing r with
  | nil => rfl
  | cons f rest ih =>
    obtain ⟨changed, hchanged, heq⟩ := applyFixups_cons settings f rest r
    have hall : fixedRecords settings (f :: rest) r =
        changed.toList ++ fixedRecords settings rest (applyFixup settings f r).1 := by
      rw [fixedRecords, heq, applyFixups_eq settings rest]
      rfl
    rw [hall, List.mem_append, not_or] at hk
    rw [heq]
    refine (ih hk.2).trans (get?_applyFixup fun h => hk.1 ?_)
    obtain rfl := Except.ok.inj (hchanged.symm.trans h)
    exact List.mem_singleton_self k

/-- The exchange whose cycle is complete. -/
def completed (x : Exchange) : Exchange :=
  let published := { x with
    repository := (applyFixups x.settings x.settings.fixups x.repository).1 }.publishSensors
  { published with
    cycle := none
    phase := .idle
    counts.completed := published.counts.completed + 1 }

/-- What a completed cycle has changed, if anything. -/
def completion? (x : Exchange) (c : Cycle) : Option ChangeNotice :=
  let notice := ChangeNotice.between c.before x.completed.repository
    (c.touched.insertMany (fixedRecords x.settings x.settings.fixups x.repository)).toList
  if notice.isEmpty then none else some notice

/-- A cycle with nothing left to ask for completes. -/
theorem finish_eq (x : Exchange) (c : Cycle) : x.finish c = (x.completed, .ok (x.completion? c)) := by
  rw [finish, applyFixups_eq]
  rfl

end fixups

section termini

/-- The map of termini once one of them is out of reach. -/
def unreachable (termini : Termini) (i : UInt16) : Termini :=
  termini.modify i fun t => { t with valid := false }

theorem getElem?_foldl_unreachable (is : List UInt16) (termini : Termini) (j : UInt16) :
    (is.foldl unreachable termini)[j]? =
      if j ∈ is then termini[j]?.map fun t => { t with valid := false } else termini[j]? := by
  induction is generalizing termini with
  | nil => rfl
  | cons i rest ih =>
    rw [List.foldl_cons, ih, unreachable, Std.ExtTreeMap.getElem?_modify]
    simp only [List.mem_cons]
    by_cases hj : i = j
    · subst hj
      simp [Function.comp_def]
    · have hj' : j ≠ i := fun h => hj h.symm
      simp [hj, hj']

/-- Marking termini comes to the end of the list. -/
theorem invalidateEach_eq (is : List UInt16) (x : Exchange) : ∃ changed, invalidateEach is x =
    ({ x with
        termini := is.foldl unreachable x.termini
        repository := is.foldl (fun r i => (r.setLocatorValidity i false).1) x.repository },
      .ok changed) := by
  induction is generalizing x with
  | nil => exact ⟨[], rfl⟩
  | cons i rest ih =>
    obtain ⟨changed, hchanged⟩ := x.repository.setLocatorValidity_ok i false
    obtain ⟨more, hmore⟩ := ih { x with
      termini := unreachable x.termini i
      repository := (x.repository.setLocatorValidity i false).1 }
    have hmarked : x.repository.setLocatorValidity i false =
        ((x.repository.setLocatorValidity i false).1, .ok changed) := Prod.ext rfl hchanged
    refine ⟨changed ++ more, ?_⟩
    rw [invalidateEach, List.foldl_cons, List.foldl_cons, hmarked]
    unfold unreachable at hmore ⊢
    simp only [hmore]
    rfl

/-- All termini are marked in the map, and so are their locator records. -/
theorem invalidateTermini_eq (x : Exchange) : ∃ changed, x.invalidateTermini =
    ({ x with
        termini := x.termini.map fun _ t => { t with valid := false }
        repository := x.termini.keys.foldl (fun r i => (r.setLocatorValidity i false).1) x.repository },
      .ok changed) := by
  obtain ⟨changed, heq⟩ := invalidateEach_eq x.termini.keys x
  have htermini : x.termini.keys.foldl unreachable x.termini =
      x.termini.map fun _ t => { t with valid := false } := by
    refine Std.ExtTreeMap.ext_getElem? fun j => ?_
    rw [getElem?_foldl_unreachable, Std.ExtTreeMap.getElem?_map]
    split_ifs with hj
    · rfl
    · rw [Std.ExtTreeMap.mem_keys] at hj
      rw [Std.ExtTreeMap.getElem?_eq_none hj, Option.map_none]
  exact ⟨changed, by rw [invalidateTermini, heq, htermini]⟩

theorem invalidateTermini_fst (x : Exchange) : x.invalidateTermini.1 =
    { x with
      termini := x.termini.map fun _ t => { t with valid := false }
      repository :=
        x.termini.keys.foldl (fun r i => (r.setLocatorValidity i false).1) x.repository } := by
  obtain ⟨changed, heq⟩ := x.invalidateTermini_eq
  rw [heq]

@[simp] theorem invalidateTermini_settings (x : Exchange) :
    x.invalidateTermini.1.settings = x.settings := by rw [invalidateTermini_fst]

@[simp] theorem invalidateTermini_imports (x : Exchange) :
    x.invalidateTermini.1.imports = x.imports := by rw [invalidateTermini_fst]

@[simp] theorem invalidateTermini_sensors (x : Exchange) :
    x.invalidateTermini.1.sensors = x.sensors := by rw [invalidateTermini_fst]

theorem getElem?_invalidateTermini (x : Exchange) (i : UInt16) :
    x.invalidateTermini.1.termini[i]? = x.termini[i]?.map fun t => { t with valid := false } := by
  rw [invalidateTermini_fst, Std.ExtTreeMap.getElem?_map]

theorem invalidateTermini_induction {p : Repository → Prop} {x : Exchange}
    (hstep : ∀ r i, p r → p (r.setLocatorValidity i false).1) (hx : p x.repository) :
    p x.invalidateTermini.1.repository := by
  rw [invalidateTermini_fst]
  exact List.foldlRecOn (motive := p) _ _ hx fun r hr i _ => hstep r i hr

end termini

end Exchange
end DescriptorExchange
