import DescriptorExchange.Proofs.Exchange.Calls
import DescriptorExchange.Proofs.Exchange.Fixups
import DescriptorExchange.Proofs.Exchange.Merging

/-!
The exchange in all its states: the controller's own records and topology, what the remembered
imports have merged into them, and records of the host in their own range. Every call keeps it so.
-/
namespace DescriptorExchange

/-- A cycle that is about to ask for the first record of the host. -/
structure Cycle.Fresh (c : Cycle) : Prop where
  mode : c.mode = .chain
  queue : c.queue = [RecordHandle.terminator]
  inFlight : c.inFlight = none
  seen : c.seen = ∅
  parentFound : c.parentFound = false

namespace Exchange

open Repository Containment

/-- All that is not there from the start is held by an import. -/
structure Anchored (r₀ : Repository) (t₀ : Containment) (x : Exchange) : Prop where
  graft : GraftedIn r₀ t₀ x x.claimed
  harmless : Harmless r₀ x.claimed
  hostRange : x.settings.hostRange = r₀.hostRange
  stored : ∀ {h k : RecordHandle}, x.imports[h]? = some (.stored k) → r₀.hostRange.contains k = true

variable {x y : Exchange} {r₀ : Repository} {t₀ : Containment}

namespace Anchored

theorem congr (hx : Anchored r₀ t₀ x) (hsettings : y.settings = x.settings)
    (hrepository : y.repository = x.repository) (htree : y.tree = x.tree)
    (himports : y.imports = x.imports) :
    Anchored r₀ t₀ y where
  graft := ⟨hsettings ▸ hx.graft.range, by
    rw [hrepository, htree, claimed, himports]
    exact hx.graft.grafted⟩
  harmless := by
    rw [claimed, himports]
    exact hx.harmless
  hostRange := hsettings ▸ hx.hostRange
  stored h := hx.stored (himports ▸ h)

/-- Changes to the repository that touch no listing. -/
theorem of_holds (hx : Anchored r₀ t₀ x) {s : Repository} (hext : Extends r₀ s)
    (hholds : ∀ {k a}, s.Holds k a ↔ x.repository.Holds k a) :
    Anchored r₀ t₀ { x with repository := s } where
  graft := ⟨hx.graft.range, hx.graft.grafted.congr hext hholds⟩
  harmless := hx.harmless
  hostRange := hx.hostRange
  stored := hx.stored

theorem rewritten (hx : Anchored r₀ t₀ x) {s : Repository} (hs : Rewritten x.repository s) :
    Anchored r₀ t₀ { x with repository := s } :=
  hx.of_holds (hx.graft.grafted.repository.rewritten hs) hs.holds

/-- Changes outside the controller's own range. -/
theorem of_own (hx : Anchored r₀ t₀ x) {s : Repository} (hown : s.ownRange = x.repository.ownRange)
    (hhost : s.hostRange = x.repository.hostRange)
    (hget : ∀ k, x.repository.ownRange.contains k = true → s.get? k = x.repository.get? k)
    (hplaced : ∀ {k record}, s.get? k = some record →
      s.ownRange.contains k = true ∨ s.hostRange.contains k = true) :
    Anchored r₀ t₀ { x with repository := s } :=
  hx.of_holds (hx.graft.grafted.repository.of_own hown hhost hget hplaced)
    (Holds.iff_of_own hown hget)

/-- A record of the host is none of the controller's own. -/
theorem not_own (hx : Anchored r₀ t₀ x) (hbase : Planted r₀ t₀) {k : RecordHandle}
    (hk : r₀.hostRange.contains k = true) : x.repository.ownRange.contains k = false := by
  rw [← Bool.not_eq_true, hx.graft.grafted.repository.ownRange]
  intro hown
  have hhost := HandleRange.not_contains_of_apart hbase.ranges.disjoint hown
  exact Bool.false_ne_true (hhost.symm.trans hk)

end Anchored

theorem dropStored_imports (x : Exchange) (k : RecordHandle) :
    (x.dropStored k).1.imports = x.imports := by
  rcases x.dropStored_cases k with ⟨-, heq⟩ | ⟨termini, sensor, heq⟩ <;> rw [heq]

theorem dropStored_tree (x : Exchange) (k : RecordHandle) : (x.dropStored k).1.tree = x.tree := by
  rcases x.dropStored_cases k with ⟨-, heq⟩ | ⟨termini, sensor, heq⟩ <;> rw [heq]

theorem dropImport_issued (x : Exchange) (h : RecordHandle) :
    (x.dropImport h).1.tree.issued = x.tree.issued := by
  simp only [dropImport]
  split
  next => rfl
  next k _ => exact congrArg Containment.issued (dropStored_tree _ k)
  next parent children k _ =>
    have hall := unmergeAll_issued k children { x with imports := x.imports.erase h }
    split
    next y e heq => rwa [heq] at hall
    next y touched heq => rwa [heq] at hall

theorem dropImports_issued (handles : List RecordHandle) (x : Exchange) :
    (dropImports handles x).1.tree.issued = x.tree.issued :=
  dropImports_induction (p := fun y => y.tree.issued = x.tree.issued)
    (fun y h hy => (dropImport_issued y h).trans hy) handles rfl

/-- Forgetting records makes no nodes. -/
theorem forget_issued (x : Exchange) (handles : List RecordHandle) :
    (x.forget handles).1.tree.issued = x.tree.issued := by
  have hall := dropImports_issued handles x
  unfold forget
  split
  next y e heq => rwa [heq] at hall
  next y touched sensors heq =>
    rw [heq] at hall
    split_ifs <;> exact hall

theorem completed_anchored (hx : Anchored r₀ t₀ x) : Anchored r₀ t₀ x.completed := by
  have hfixed := applyFixups_alike x.settings x.settings.fixups x.repository
  exact (hx.rewritten hfixed.rewritten).congr rfl rfl rfl rfl

theorem advance_anchored {next : RecordHandle} {result : Except ExchangeError FetchOutcome}
    (hx : Anchored r₀ t₀ x) (h : x.advance next = (y, result)) : Anchored r₀ t₀ y := by
  rcases advance_cases h with ⟨-, rfl, -⟩ | ⟨c, -, ⟨rfl, -⟩ | ⟨rfl, -⟩ | ⟨rfl, -⟩⟩
  · exact hx
  · exact hx.congr rfl rfl rfl rfl
  · exact completed_anchored (hx.congr rfl rfl rfl rfl)
  · exact hx.congr rfl rfl rfl rfl

/-- Marking the termini of the host rewrites locator records. -/
theorem invalidateTermini_rewritten (x : Exchange) :
    Rewritten x.repository x.invalidateTermini.1.repository :=
  invalidateTermini_induction (fun r i hr => hr.trans (setLocatorValidity_rewritten r i false))
    (.refl x.repository)

theorem invalidateTermini_anchored (hx : Anchored r₀ t₀ x) :
    Anchored r₀ t₀ x.invalidateTermini.1 := by
  have hmarked := hx.rewritten x.invalidateTermini_rewritten
  rw [invalidateTermini_fst] at hmarked ⊢
  exact hmarked.congr rfl rfl rfl rfl

theorem beginFetch_anchored {handles : List RecordHandle} (hx : Anchored r₀ t₀ x) :
    Anchored r₀ t₀ (x.beginFetch handles).1 := by
  simp only [beginFetch]
  split
  · exact hx.congr rfl rfl rfl rfl
  · split
    · exact hx
    · exact hx.congr rfl rfl rfl rfl

theorem nextRequest_anchored (hx : Anchored r₀ t₀ x) : Anchored r₀ t₀ x.nextRequest.1 := by
  unfold nextRequest
  split
  · exact hx
  · split_ifs
    · split
      · exact hx.congr rfl rfl rfl rfl
      · exact hx
    · exact hx.congr rfl rfl rfl rfl

/-- The controller's own records and topology, and nothing else. What has been written into records
other than association records stays. -/
structure Restored (r₀ : Repository) (t₀ : Containment) (x : Exchange) : Prop where
  imports : x.imports = ∅
  termini : x.termini = ∅
  nodes : x.tree.nodes = t₀.nodes
  own : ∀ {k record}, x.repository.get? k = some record → r₀.ownRange.contains k = true
  listings : ∀ {k a}, x.repository.Holds k a ↔ r₀.Holds k a

/-- Under a handle where the base has at most an association record, the record is that of the
base. -/
theorem Restored.get?_eq (hbase : Planted r₀ t₀) (hext : Extends r₀ x.repository)
    (h : Restored r₀ t₀ x)
    {k : RecordHandle} (hk : ∀ label, r₀.label? k = some label → label.1 = .entityAssociation) :
    x.repository.get? k = r₀.get? k := by
  cases hget : x.repository.get? k with
  | some record =>
    obtain ⟨a, ha⟩ := hext.holds_of_get? (h.own hget) hk hget
    rw [← hget, ha.get, (h.listings.mp ha).get]
  | none =>
    cases hget₀ : r₀.get? k with
    | none => rfl
    | some record =>
      obtain ⟨a, ha⟩ := hbase.tidy k record hget₀ (hbase.own hget₀) (hk _ (label?_of_get? hget₀))
      simp [(h.listings.mpr ha).get] at hget

/-- What was there from the start and has been restored is as good as what was there from the
start. -/
theorem Restored.planted (hbase : Planted r₀ t₀) (hx : Anchored r₀ t₀ x) (h : Restored r₀ t₀ x) :
    Planted x.repository x.tree := by
  have hext := hx.graft.grafted.repository
  refine ⟨?_, hext.tidy, fun {k record} hget => ?_, hx.graft.grafted.tree.forest,
    fun {id n} hn => ?_,
    hx.graft.grafted.mirror⟩
  · rw [hext.ownRange, hext.hostRange]
    exact hbase.ranges
  · rw [hext.ownRange]
    exact h.own hget
  · rw [node?, h.nodes] at hn
    exact hbase.ownNodes hn

/-- Without imports there is only what was there from the start. -/
theorem anchored_of_planted (h : Planted x.repository x.tree) (himports : x.imports = ∅)
    (hown : x.settings.ownRange = x.repository.ownRange)
    (hhost : x.settings.hostRange = x.repository.hostRange) : Anchored x.repository x.tree x := by
  have hclaimed (e : Entity) (k : RecordHandle) : ¬ x.claimed e k := by
    intro hc
    obtain ⟨h, parent, children, hget, -⟩ := claims_toList.mp hc
    simp [himports] at hget
  exact ⟨⟨hown, h.grafted.mono fun _ _ => False.elim⟩,
    fun e k hc => absurd hc (hclaimed e k), hhost,
    fun {h k} hs => by simp [himports] at hs⟩

/-- Merging that brings nothing new needs no import. -/
theorem MergesInto.anchored {node : NodeId} {parent : Entity} {kind : UInt8}
    (hx : Anchored r₀ t₀ x) (h : MergesInto r₀ t₀ x.claimed node parent kind x y []) :
    Anchored r₀ t₀ y := by
  have hgraft : GraftedIn r₀ t₀ y x.claimed :=
    h.graft.mono fun e j hc => hc.resolve_right (by simp)
  have hclaimed : y.claimed = x.claimed := by
    rw [claimed, h.imports, claimed]
  refine ⟨hclaimed ▸ hgraft, hclaimed ▸ hx.harmless, ?_, fun hs => hx.stored (h.imports ▸ hs)⟩
  rw [h.settings]
  exact hx.hostRange

/-- All that merging brings is held by one import of the one record it is listed in. -/
theorem MergesInto.anchored_insert {node : NodeId} {parent : Entity} {kind : UInt8}
    {new : List (Entity × RecordHandle)} {hostHandle handle : RecordHandle}
    (hx : Anchored r₀ t₀ x) (h : MergesInto r₀ t₀ x.claimed node parent kind x y new)
    (hfree : x.imports[hostHandle]? = none)
    (hhandle : ∀ e j, (e, j) ∈ new → j = handle) :
    Anchored r₀ t₀ { y with
      imports := y.imports.insert hostHandle (.merged parent (new.map Prod.fst) handle) } := by
  have hclaims (e : Entity) (j : RecordHandle) :
      claims ((y.imports.insert hostHandle
        (.merged parent (new.map Prod.fst) handle)).toList.map Prod.snd) e j ↔
      x.claimed e j ∨ (e, j) ∈ new := by
    rw [claims_insert (h.imports ▸ hfree), h.imports, claims_merged]
    refine or_congr_right ⟨?_, fun hj => ⟨List.mem_map_of_mem hj, hhandle e j hj⟩⟩
    rintro ⟨he, rfl⟩
    obtain ⟨⟨e, i⟩, hmem, rfl⟩ := List.mem_map.mp he
    exact hhandle e i hmem ▸ hmem
  refine ⟨⟨h.graft.range, h.graft.grafted.mono fun e j hc => (hclaims e j).mpr hc⟩,
    fun e j hc => ?_, ?_, fun {k i} hs => ?_⟩
  · exact ((hclaims e j).mp hc).elim (hx.harmless e j) (h.harmless e j)
  · exact (congrArg ExchangeSettings.hostRange h.settings).trans hx.hostRange
  · rw [h.imports, Std.ExtTreeMap.getElem?_insert] at hs
    split_ifs at hs
    · simp at hs
    · exact hx.stored hs

section imports

variable (hbase : Planted r₀ t₀)
include hbase

theorem merge_anchored {hostHandle : RecordHandle} {a : Association} (hx : Anchored r₀ t₀ x)
    (hnew : x.imports[hostHandle]? = none) (h : x.merge hostHandle a = (y, .ok ())) :
    Anchored r₀ t₀ y := by
  rcases x.merge_cases hostHandle a with
    heq | ⟨node, parent, mid, -, hparent, ⟨e, -, heq⟩ | ⟨new, hmerge, hcases⟩⟩
  · obtain ⟨rfl, -⟩ := Prod.mk.inj (heq.symm.trans h)
    exact hx.congr rfl rfl rfl rfl
  · simp [heq] at h
  obtain ⟨above, habove, rfl⟩ := entity?_eq_some.mp hparent
  have hseen : Anchored r₀ t₀ x.findParent := hx.congr rfl rfl rfl rfl
  have hmid := mergeChildren_mergesInto hbase.ranges hseen.graft habove hmerge
  rcases hcases with ⟨rfl, heq⟩ | ⟨child, handle, hmem, heq⟩
  all_goals obtain ⟨rfl, -⟩ := Prod.mk.inj (heq.symm.trans h)
  · exact (hmid.anchored hseen).congr rfl rfl rfl rfl
  · have hhandle (e : Entity) (j : RecordHandle) (hj : (e, j) ∈ new) : j = handle := by
      have hfound := hmid.found handle (.inl ⟨child, hmem⟩)
      exact Option.some.inj ((hmid.found j (.inl ⟨e, hj⟩)).symm.trans hfound)
    exact (hmid.anchored_insert hseen hnew hhandle).congr rfl rfl rfl rfl

/-- Removing a record of the host. -/
theorem dropStored_anchored {k : RecordHandle} (hx : Anchored r₀ t₀ x)
    (hin : r₀.hostRange.contains k = true) : Anchored r₀ t₀ (x.dropStored k).1 := by
  have hext := hx.graft.grafted.repository
  have herase : Anchored r₀ t₀ { x with repository := x.repository.erase k } := by
    refine hx.of_own rfl rfl (fun j hj => ?_) fun {j record} hget => ?_
    · rw [get?_erase, if_neg]
      rintro rfl
      simp [hx.not_own hbase hin] at hj
    · rw [get?_erase] at hget
      split_ifs at hget
      exact hext.placed hget
  rcases x.dropStored_cases k with ⟨-, heq⟩ | ⟨termini, sensor, heq⟩
  · rwa [heq]
  · rw [heq]
    exact herase.congr rfl rfl rfl rfl

/-- Undoing an import does not fail. -/
theorem dropImport_anchored (hx : Anchored r₀ t₀ x) (h : RecordHandle) :
    ∃ y result, x.dropImport h = (y, .ok result) ∧ Anchored r₀ t₀ y ∧
      ∀ j, y.imports[j]? = if j = h then none else x.imports[j]? := by
  have hstored {j k : RecordHandle} (hj : (x.imports.erase h)[j]? = some (.stored k)) :
      r₀.hostRange.contains k = true := by
    rw [imports_erase] at hj
    split_ifs at hj
    exact hx.stored hj
  have hharmless : Harmless r₀ (claims ((x.imports.erase h).toList.map Prod.snd)) := fun e j hc =>
    hx.harmless e j (claims_of_erase hc)
  simp only [dropImport]
  cases hi : x.imports[h]? with
  | none =>
    refine ⟨x, _, rfl, hx, fun j => ?_⟩
    split_ifs with hj
    · rw [hj, hi]
    · rfl
  | some i =>
    cases i with
    | stored k =>
      have hrest : Anchored r₀ t₀ { x with imports := x.imports.erase h } :=
        ⟨⟨hx.graft.range, hx.graft.grafted.mono fun e j hc =>
          (claims_erase hi hc).resolve_right claims_stored⟩, hharmless, hx.hostRange, hstored⟩
      refine ⟨_, _, rfl, dropStored_anchored hbase hrest (hx.stored hi), fun j => ?_⟩
      rw [dropStored_imports]
      exact imports_erase j
    | merged parent children k =>
      let z : Exchange := { x with imports := x.imports.erase h }
      have hz : GraftedIn r₀ t₀ z x.claimed := ⟨hx.graft.range, hx.graft.grafted⟩
      have hrest : ∃ y touched, unmergeAll k children z = (y, .ok touched) ∧ z.Regrown y ∧
          GraftedIn r₀ t₀ y z.claimed :=
        unmergeAll_grafted hbase hz
          (fun e j hc => hx.harmless e j
          (claims_toList.mpr ⟨h, parent, children, by rw [hi, hc.2], hc.1⟩))
          fun e j hc => (claims_erase hi hc).imp_right claims_merged.mp
      obtain ⟨y, touched, hall, hxy, hy⟩ := hrest
      change unmergeAll k children { x with imports := x.imports.erase h } = _ at hall
      have himports : y.imports = x.imports.erase h := hxy.imports
      refine ⟨y, (touched, false), by simp only [hall],
        ⟨⟨hy.range, ?_⟩, ?_, ?_, fun hs => hstored (himports ▸ hs)⟩, fun j => ?_⟩
      · rw [claimed, himports]
        exact hy.grafted
      · rw [claimed, himports]
        exact hharmless
      · exact (congrArg ExchangeSettings.hostRange hxy.settings).trans hx.hostRange
      · rw [himports]
        exact imports_erase j

theorem dropImports_anchored (hx : Anchored r₀ t₀ x) (handles : List RecordHandle) :
    ∃ y result, dropImports handles x = (y, .ok result) ∧ Anchored r₀ t₀ y ∧
      ∀ h ∈ handles, y.imports[h]? = none := by
  suffices ∃ y result, dropImports handles x = (y, .ok result) ∧ Anchored r₀ t₀ y ∧
      ∀ j, y.imports[j]? = if j ∈ handles then none else x.imports[j]? by
    obtain ⟨y, result, heq, hy, himports⟩ := this
    exact ⟨y, result, heq, hy, fun h hh => by rw [himports, if_pos hh]⟩
  induction handles generalizing x with
  | nil => exact ⟨x, _, rfl, hx, fun j => by simp⟩
  | cons h handles ih =>
    obtain ⟨y, ⟨touched, sensor⟩, heq, hy, himports⟩ := dropImport_anchored hbase hx h
    obtain ⟨z, ⟨more, sensors⟩, heq', hz, himports'⟩ := ih hy
    refine ⟨z, (touched ++ more, sensor || sensors), by simp only [dropImports, heq, heq'], hz,
      fun j => ?_⟩
    rw [himports', himports]
    simp only [List.mem_cons]
    split_ifs <;> simp_all

/-- Withdrawn records are forgotten without fail. -/
theorem forget_anchored (hx : Anchored r₀ t₀ x) (handles : List RecordHandle) :
    ∃ y touched, x.forget handles = (y, .ok touched) ∧ Anchored r₀ t₀ y ∧
      ∀ h ∈ handles, y.imports[h]? = none := by
  obtain ⟨y, ⟨touched, sensors⟩, heq, hy, himports⟩ := dropImports_anchored hbase hx handles
  refine ⟨if sensors then y.publishSensors else y, Std.ExtTreeSet.ofList touched,
    by simp only [forget, heq], ?_⟩
  split_ifs
  · exact ⟨hy.congr rfl rfl rfl rfl, himports⟩
  · exact ⟨hy, himports⟩

/-- Storing a record of the host. -/
theorem store_anchored {h : RecordHandle} {record : Bytes} (hx : Anchored r₀ t₀ x)
    (hnew : x.imports[h]? = none) (hstore : x.store h record = (y, .ok ())) : Anchored r₀ t₀ y := by
  have hext := hx.graft.grafted.repository
  unfold store at hstore
  split at hstore
  next => simp at hstore
  next s k hinsert =>
    obtain ⟨rfl, -⟩ := Prod.mk.inj hstore
    obtain ⟨header, body, stored, -, hslot, -, rfl⟩ := insert_eq_ok.mp hinsert
    have hproper : x.repository.hostRange.first ≤ x.repository.hostRange.last :=
      hext.hostRange ▸ hbase.ranges.hostProper
    obtain ⟨hin, hfree⟩ := slot?_spec .host hproper hslot
    have hkept := hx.of_own (s := x.repository.put k ⟨header.type, .host, stored⟩) rfl rfl
      (fun j hj => get?_put_ne _ _ (by
        rintro rfl
        exact Bool.false_ne_true ((hx.not_own hbase (hext.hostRange ▸ hin)).symm.trans hj)))
      (fun {j record} hget => by
        rw [get?_put] at hget
        split_ifs at hget with hj
        · exact .inr (hj ▸ hin)
        · exact hext.placed hget)
    have hclaims (e : Entity) (j : RecordHandle) :
        claims ((x.imports.insert h (.stored k)).toList.map Prod.snd) e j ↔ x.claimed e j := by
      rw [claims_insert hnew]
      exact or_iff_left claims_stored
    refine ⟨⟨hkept.graft.range, hkept.graft.grafted.mono fun e j => (hclaims e j).mpr⟩,
      fun e j hc => hx.harmless e j ((hclaims e j).mp hc), hx.hostRange, fun {j i} hi => ?_⟩
    change (x.imports.insert h (.stored k))[j]? = _ at hi
    rw [Std.ExtTreeMap.getElem?_insert] at hi
    split_ifs at hi
    · obtain rfl := Import.stored.inj (Option.some.inj hi)
      exact hext.hostRange ▸ hin
    · exact hx.stored hi

theorem classify_anchored {header : RecordHeader} {record : Bytes} (hx : Anchored r₀ t₀ x)
    (hnew : x.imports[header.handle]? = none) (h : x.classify header record = (y, .ok ())) :
    Anchored r₀ t₀ y := by
  rcases classify_uniform header record with hskip | ⟨⟨_, a⟩, -, hmerge⟩ | ⟨note, -, hstore⟩
  · rw [hskip] at h
    obtain ⟨rfl, -⟩ := Prod.mk.inj h
    exact hx.congr rfl rfl rfl rfl
  · exact merge_anchored hbase hx hnew (hmerge x ▸ h)
  · have hnoted : Anchored r₀ t₀ { x with termini := note x.termini } := hx.congr rfl rfl rfl rfl
    exact store_anchored hbase hnoted hnew (hstore x ▸ h)

/-- A record that can be read is classified once it has no import. -/
theorem importRecord_classifies (hx : Anchored r₀ t₀ x) (record : Bytes) :
    x.importRecord record = (x.skip, .ok ()) ∨ ∃ u header body,
      RecordHeader.split record = .ok (header, body) ∧ Anchored r₀ t₀ u ∧
        u.imports[header.handle]? = none ∧ u.tree.issued = x.tree.issued ∧
        x.importRecord record = u.classify header record := by
  rcases x.importRecord_cases record with ⟨e, -, heq⟩ | ⟨header, body, hsplit, hcases⟩
  · exact .inl heq
  have hseen : Anchored r₀ t₀ (x.see header.handle) := hx.congr rfl rfl rfl rfl
  obtain ⟨z, gone, hforgets, hz, hnew⟩ := forget_anchored hbase hseen [header.handle]
  rcases hcases with ⟨hnone, heq⟩ | ⟨-, ⟨z', e, hfails, -⟩ | ⟨z', touched, hforget, heq⟩⟩
  · exact .inr ⟨_, header, body, hsplit, hseen, Std.ExtTreeMap.getElem?_eq_none hnone, rfl, heq⟩
  · simp [hforgets] at hfails
  · obtain ⟨rfl, -⟩ := Prod.mk.inj (hforgets.symm.trans hforget)
    have hnoted : Anchored r₀ t₀ (z.touch touched.toList) := hz.congr rfl rfl rfl rfl
    have hissued := forget_issued (x.see header.handle) [header.handle]
    rw [hforget] at hissued
    exact .inr ⟨_, header, body, hsplit, hnoted, hnew _ (List.mem_singleton_self _), hissued, heq⟩

theorem importRecord_anchored {record : Bytes} (hx : Anchored r₀ t₀ x)
    (h : x.importRecord record = (y, .ok ())) : Anchored r₀ t₀ y := by
  rcases importRecord_classifies hbase hx record with heq | ⟨u, header, body, -, hu, hnew, -, heq⟩
  · obtain ⟨rfl, -⟩ := Prod.mk.inj (heq.symm.trans h)
    exact hx.congr rfl rfl rfl rfl
  · exact classify_anchored hbase hu hnew (heq ▸ h)

theorem receive_anchored {cycle : CycleId} {answer : Except RequestError Bytes}
    {result : Except ExchangeError FetchOutcome} (hx : Anchored r₀ t₀ x)
    (h : x.receive cycle answer = (y, result)) (hfatal : ∀ e, result ≠ .error (.fatal e)) :
    Anchored r₀ t₀ y := by
  rcases receive_cases h with ⟨rfl, -⟩ | ⟨c, handle, -, -, -, ⟨e, -, rfl, -⟩ |
    ⟨record, next, -, ⟨z, e, -, -, he⟩ | ⟨z, hi, ha⟩⟩⟩
  · exact hx.congr rfl rfl rfl rfl
  · exact hx.congr rfl rfl rfl rfl
  · exact absurd he (hfatal e)
  · have hanswered : Anchored r₀ t₀ (x.answered c) := hx.congr rfl rfl rfl rfl
    exact advance_anchored (importRecord_anchored hbase hanswered hi) ha

/-- A resync takes back all merges and then clears the range of the host. -/
theorem beginResync_eq (hx : Anchored r₀ t₀ x) : ∃ z : Exchange,
    Regrown { (x.startCycle .chain [RecordHandle.terminator]).1 with imports := ∅ } z ∧
      (GraftedIn r₀ t₀ z fun _ _ => False) ∧
      ∃ retracted removed, x.beginResync.1 =
        ({ z with
          repository := (z.repository.removeRange r₀.hostRange).1
          termini := ∅
          phase := .awaitingFirstRecord }.touch retracted).touch removed := by
  let begun := (x.startCycle .chain [RecordHandle.terminator]).1
  have hbegun : GraftedIn r₀ t₀ begun begun.claimed := ⟨hx.graft.range, hx.graft.grafted⟩
  obtain ⟨z, retracted, hretract, hxz, hz⟩ := retractMerges_grafted hbase hbegun hx.harmless
  refine ⟨z, hxz, hz, retracted, (z.repository.removeRange r₀.hostRange).2.map Prod.fst, ?_⟩
  have hrange : z.settings.hostRange = r₀.hostRange := hxz.settings ▸ hx.hostRange
  change (x.startCycle .chain [RecordHandle.terminator]).1.retractMerges = (z, retracted)
    at hretract
  simp only [beginResync, hretract, ← hrange]

theorem beginResync_anchored (hx : Anchored r₀ t₀ x) : Anchored r₀ t₀ x.beginResync.1 := by
  obtain ⟨z, hxz, hz, retracted, removed, heq⟩ := beginResync_eq hbase hx
  have hext := hz.grafted.repository
  rw [heq]
  suffices hy : Anchored r₀ t₀ { z with
      repository := (z.repository.removeRange r₀.hostRange).1
      termini := ∅
      phase := .awaitingFirstRecord } from hy.congr rfl rfl rfl rfl
  refine ⟨⟨hz.range, ?_⟩, fun e k hc => ?_, hxz.settings ▸ hx.hostRange, fun {h k} hs => ?_⟩
  · exact (hz.grafted.congr (hext.removeRange hbase.ranges)
      (hext.holds_removeRange hbase.ranges)).mono
      fun _ _ => False.elim
  · obtain ⟨h, parent, children, hget, -⟩ := claims_toList.mp hc
    simp [hxz.imports] at hget
  · simp [hxz.imports] at hs

/-- When a resync begins there are the controller's own records and topology, and nothing else. -/
theorem beginResync_restored (hx : Anchored r₀ t₀ x) : Restored r₀ t₀ x.beginResync.1 := by
  obtain ⟨z, hxz, hz, retracted, removed, heq⟩ := beginResync_eq hbase hx
  obtain ⟨hnodes, hlistings⟩ := hz.grafted.restored
  rw [heq]
  refine ⟨hxz.imports, rfl, hnodes, fun {k record} hget => ?_, fun {k a} => ?_⟩
  · change (z.repository.removeRange r₀.hostRange).1.get? k = _ at hget
    rw [hz.grafted.repository.get?_removeRange hbase.ranges] at hget
    split_ifs at hget with hin
    exact hin
  · exact (hz.grafted.repository.holds_removeRange hbase.ranges).trans (hlistings k a)

/-- A resync touches none of the controller's own records but association records. -/
theorem get?_beginResync {k : RecordHandle} {record : Record} (hx : Anchored r₀ t₀ x)
    (hin : r₀.ownRange.contains k = true) (htype : record.type ≠ .entityAssociation) :
    x.beginResync.1.repository.get? k = some record ↔ x.repository.get? k = some record := by
  obtain ⟨z, hxz, hz, retracted, removed, heq⟩ := beginResync_eq hbase hx
  rw [heq]
  change (z.repository.removeRange r₀.hostRange).1.get? k = _ ↔ _
  rw [hz.grafted.repository.get?_removeRange hbase.ranges, if_pos hin]
  exact hxz.relisted.others k record (.inr htype)

theorem beginResync_cycle (hx : Anchored r₀ t₀ x) :
    ∃ c, x.beginResync.1.cycle = some c ∧ c.Fresh ∧ c.before = x.repository := by
  obtain ⟨z, ⟨repository, tree, notices, rfl, -⟩, -, retracted, removed, heq⟩ :=
    beginResync_eq hbase hx
  rw [heq]
  exact ⟨_, rfl, ⟨rfl, rfl, rfl, rfl, rfl⟩, rfl⟩

theorem beginResync_settings (hx : Anchored r₀ t₀ x) :
    x.beginResync.1.settings = x.settings ∧ x.beginResync.1.hostUp = x.hostUp := by
  obtain ⟨z, ⟨repository, tree, notices, rfl, -⟩, -, retracted, removed, heq⟩ :=
    beginResync_eq hbase hx
  rw [heq]
  exact ⟨rfl, rfl⟩

theorem call?_anchored {call : Call} (hx : Anchored r₀ t₀ x) (h : x.call? call = some y) :
    Anchored r₀ t₀ y := by
  cases call with
  | resync =>
    obtain rfl := Option.some.inj h
    exact beginResync_anchored hbase hx
  | fetch handles =>
    obtain rfl := Option.some.inj h
    exact beginFetch_anchored hx
  | request =>
    obtain rfl := Option.some.inj h
    exact nextRequest_anchored hx
  | receive cycle answer =>
    obtain ⟨result, hreceive, hfatal⟩ := call?_receive h
    exact receive_anchored hbase hx hreceive hfatal
  | forget handles =>
    obtain rfl := Option.some.inj h
    obtain ⟨y, touched, heq, hy, -⟩ := forget_anchored hbase hx handles
    rw [heq]
    exact hy
  | hostDown =>
    obtain rfl := Option.some.inj h
    exact invalidateTermini_anchored hx
  | link up =>
    obtain rfl := Option.some.inj h
    exact hx.congr rfl rfl rfl rfl

/-- Every state a run leads to is anchored where the run began. -/
theorem run?_anchored {calls : List Call} (hx : Anchored r₀ t₀ x) (h : x.run? calls = some y) :
    Anchored r₀ t₀ y :=
  run?_induction (fun _ _ _ hp (_ : True) hcall => call?_anchored hbase hp hcall)
    (fun _ _ => trivial) hx h

end imports

end Exchange
end DescriptorExchange
