import DescriptorExchange.Proofs.Containment.Renaming
import DescriptorExchange.Proofs.Exchange.Calls
import DescriptorExchange.Proofs.Repository.Overlay

/-!
Two exchanges that ask a host for the same records and are told the same. Their repositories
differ in hidden records only, which no import looks at, and their trees in the ids of nodes. Each
step of the one is a step of the other that gives the same result, and they stay abreast.
-/
namespace DescriptorExchange

open Repository Containment

/-- Where the record of an import is. -/
def Import.handle : Import → RecordHandle
  | stored handle => handle
  | merged _ _ handle => handle

/-- Cycles that have asked for the same. The second one began with a given repository. -/
structure Cycle.Matches (b : Repository) (c d : Cycle) : Prop where
  mode : d.mode = c.mode
  queue : d.queue = c.queue
  inFlight : d.inFlight = c.inFlight
  seen : d.seen = c.seen
  parentFound : d.parentFound = c.parentFound
  before : d.before = b

theorem Cycle.Matches.follow {b : Repository} {c d : Cycle} (h : c.Matches b d)
    (next : RecordHandle) :
    (c.follow next).Matches b (d.follow next) := by
  simp only [Cycle.follow, h.mode]
  split_ifs
  · exact ⟨rfl, by rw [h.queue], h.inFlight, by rw [h.seen], h.parentFound, h.before⟩
  · exact h

namespace Exchange

structure Abreast (hidden : RecordHandle → Prop) (b : Repository) (σ : NodeId → NodeId)
    (x y : Exchange) :
    Prop where
  settings : y.settings = x.settings
  hostUp : y.hostUp = x.hostUp
  imports : y.imports = x.imports
  termini : y.termini = x.termini
  repository : Overlaid hidden b x.repository y.repository
  tree : Alongside σ x.tree y.tree
  cycle : ∃ c d, x.cycle = some c ∧ y.cycle = some d ∧ c.Matches b d
  clear : ∀ {h : RecordHandle} {i}, x.imports[h]? = some i → ¬ hidden i.handle

variable {hidden : RecordHandle → Prop} {b : Repository} {σ : NodeId → NodeId} {x x' y : Exchange}
  {node : NodeId} {parent child : Entity} {kind : UInt8} {handle : RecordHandle}

namespace Abreast

section notes

variable (h : Abreast hidden b σ x y)
include h

theorem mapCycle {f g : Cycle → Cycle}
    (hfg : ∀ c d : Cycle, c.Matches b d → (f c).Matches b (g d)) :
    Abreast hidden b σ (x.mapCycle f) (y.mapCycle g) := by
  obtain ⟨c, d, hc, hd, hcd⟩ := h.cycle
  refine ⟨h.settings, h.hostUp, h.imports, h.termini, h.repository, h.tree,
    ⟨f c, g d, ?_, ?_, hfg c d hcd⟩,
    h.clear⟩
  · exact Option.map_eq_some_iff.mpr ⟨c, hc, rfl⟩
  · exact Option.map_eq_some_iff.mpr ⟨d, hd, rfl⟩

theorem touch (hs ks : List RecordHandle) : Abreast hidden b σ (x.touch hs) (y.touch ks) :=
  h.mapCycle fun _ _ hcd =>
    ⟨hcd.mode, hcd.queue, hcd.inFlight, hcd.seen, hcd.parentFound, hcd.before⟩

theorem skip : Abreast hidden b σ x.skip y.skip :=
  ⟨h.settings, h.hostUp, h.imports, h.termini, h.repository, h.tree, h.cycle, h.clear⟩

theorem withStale (k : Nat) : Abreast hidden b σ x (y.withStale k) :=
  ⟨h.settings, h.hostUp, h.imports, h.termini, h.repository, h.tree, h.cycle, h.clear⟩

theorem withStale_left (k : Nat) : Abreast hidden b σ (x.withStale k) y :=
  ⟨h.settings, h.hostUp, h.imports, h.termini, h.repository, h.tree, h.cycle, h.clear⟩

theorem publishSensors : Abreast hidden b σ x.publishSensors y.publishSensors :=
  ⟨h.settings, h.hostUp, h.imports, h.termini, h.repository, h.tree, h.cycle, h.clear⟩

theorem grow {t t' : Containment} (ht : Alongside σ t t') (placement : Placement) (child : Entity) :
    Abreast hidden b σ (x.grow t placement child) (y.grow t' (placement.rename σ) child) := by
  cases placement <;>
    exact ⟨h.settings, h.hostUp, h.imports, h.termini, h.repository, ht, h.cycle, h.clear⟩

theorem withRepository {r s : Repository} (hrs : Overlaid hidden b r s) :
    Abreast hidden b σ { x with repository := r } { y with repository := s } :=
  ⟨h.settings, h.hostUp, h.imports, h.termini, hrs, h.tree, h.cycle, h.clear⟩

theorem withTermini (note : Termini → Termini) :
    Abreast hidden b σ { x with termini := note x.termini } { y with termini := note y.termini } :=
  ⟨h.settings, h.hostUp, h.imports, by rw [h.termini], h.repository, h.tree, h.cycle, h.clear⟩

end notes

section merging

variable (h : Abreast hidden b σ x y)
include h

theorem parentNode? (container : Entity) :
    y.parentNode? container = (x.parentNode? container).map σ := by
  obtain ⟨c, d, hc, hd, hcd⟩ := h.cycle
  simp only [Exchange.parentNode?, hc, hd, hcd.parentFound, h.tree.renamed.findExact?,
    h.tree.renamed.findUnit?]
  split_ifs <;> rfl

theorem mergeChild {record : Option RecordHandle}
    (hmerge : x.mergeChild node parent kind child = (x', .ok record)) :
    ∃ y', y.mergeChild (σ node) parent kind child = (y', .ok record) ∧ Abreast hidden b σ x' y' ∧
      ∀ handle, record = some handle → ¬ hidden handle := by
  rcases h.tree.attach node child .host with ⟨e, e', he, he'⟩ | ⟨t, t', placement, ht, ht', htt'⟩
  · rw [mergeChild_of_refused he] at hmerge
    obtain ⟨rfl, hrecord⟩ := Prod.mk.inj hmerge
    obtain rfl := Except.ok.inj hrecord
    exact ⟨y, mergeChild_of_refused he', h, by simp⟩
  · rw [mergeChild_of_attached ht] at hmerge
    rw [mergeChild_of_attached ht']
    split at hmerge
    next => simp at hmerge
    next r handle changed hassociate =>
      obtain ⟨rfl, hrecord⟩ := Prod.mk.inj hmerge
      obtain rfl := Except.ok.inj hrecord
      obtain ⟨hclear, s, hs, hrs⟩ := h.repository.associate hassociate
      have hnew : (placement.rename σ).isNew = placement.isNew := by cases placement <;> rfl
      simp only [hs, hnew]
      refine ⟨_, rfl, ?_, fun k hk => ?_⟩
      · have hgrown := (h.grow htt' placement child).withRepository hrs
        split_ifs
        · exact hgrown.touch [handle] [handle]
        · exact hgrown
      · split_ifs at hk
        exact Option.some.inj hk ▸ hclear

theorem mergeChildren {children : List Entity} {new : List (Entity × RecordHandle)}
    (hmerge : mergeChildren node parent kind children x = (x', .ok new)) :
    ∃ y', Exchange.mergeChildren (σ node) parent kind children y = (y', .ok new) ∧
      Abreast hidden b σ x' y' ∧ ∀ entry ∈ new, ¬ hidden entry.2 := by
  induction children generalizing x y new with
  | nil =>
    obtain ⟨rfl, hnew⟩ := Prod.mk.inj hmerge
    obtain rfl := Except.ok.inj hnew
    exact ⟨y, rfl, h, by simp⟩
  | cons child rest ih =>
    obtain ⟨z, record, more, hchild, hrest, rfl⟩ := mergeChildren_cons_eq_ok hmerge
    obtain ⟨z', hz', hz, hclear⟩ := h.mergeChild hchild
    obtain ⟨w', hw', hw, hclear'⟩ := ih hz hrest
    refine ⟨w', by simp only [Exchange.mergeChildren, hz', hw'], hw, fun entry hentry => ?_⟩
    rcases List.mem_append.mp hentry with hfirst | hlater
    · obtain ⟨k, hk, rfl⟩ : ∃ k, record = some k ∧ (child, k) = entry := by simpa using hfirst
      exact hclear k hk
    · exact hclear' entry hlater

theorem insertImport (hostHandle : RecordHandle) {i : Import} (hi : ¬ hidden i.handle) :
    Abreast hidden b σ { x with imports := x.imports.insert hostHandle i }
      { y with imports := y.imports.insert hostHandle i } := by
  refine ⟨h.settings, h.hostUp, by rw [h.imports], h.termini, h.repository, h.tree, h.cycle,
    fun {k j} hj => ?_⟩
  rw [Std.ExtTreeMap.getElem?_insert] at hj
  split_ifs at hj
  · exact Option.some.inj hj ▸ hi
  · exact h.clear hj

theorem merge {hostHandle : RecordHandle} {a : Association}
    (hmerge : x.merge hostHandle a = (x', .ok ())) :
    ∃ y', y.merge hostHandle a = (y', .ok ()) ∧ Abreast hidden b σ x' y' := by
  unfold Exchange.merge at hmerge ⊢
  rw [h.parentNode?]
  cases hnode : x.parentNode? a.container with
  | none =>
    simp only [hnode] at hmerge
    obtain ⟨rfl, -⟩ := Prod.mk.inj hmerge
    exact ⟨_, rfl, h.skip⟩
  | some node =>
    simp only [hnode, Option.map_some, h.tree.renamed.entity?] at hmerge ⊢
    cases hparent : x.tree.entity? node with
    | none =>
      simp only [hparent] at hmerge
      obtain ⟨rfl, -⟩ := Prod.mk.inj hmerge
      exact ⟨_, rfl, h.skip⟩
    | some parent =>
      simp only [hparent] at hmerge ⊢
      split at hmerge
      next => simp at hmerge
      next z new hchildren =>
        have hfound : Abreast hidden b σ (x.mapCycle fun c => { c with parentFound := true })
            (y.mapCycle fun c => { c with parentFound := true }) :=
          h.mapCycle fun _ _ hcd => ⟨hcd.mode, hcd.queue, hcd.inFlight, hcd.seen, rfl, hcd.before⟩
        obtain ⟨z', hz', hz, hclear⟩ := hfound.mergeChildren hchildren
        simp only [hz']
        have hcounted : Abreast hidden b σ { z with counts.merged := z.counts.merged + 1 }
            { z' with counts.merged := z'.counts.merged + 1 } :=
          ⟨hz.settings, hz.hostUp, hz.imports, hz.termini, hz.repository, hz.tree,
            hz.cycle, hz.clear⟩
        split at hmerge
        next =>
          obtain ⟨rfl, -⟩ := Prod.mk.inj hmerge
          exact ⟨_, rfl, hcounted⟩
        next child handle hlast =>
          obtain ⟨rfl, -⟩ := Prod.mk.inj hmerge
          refine ⟨_, rfl, hcounted.insertImport hostHandle ?_⟩
          exact hclear (child, handle) (List.mem_of_getLast? hlast)

end merging

end Abreast

theorem stripAll_overlaid {r s : Repository} (range : HandleRange) (gone : List Entity)
    (h : Overlaid hidden b r s) : (stripAll range gone s).2 = (stripAll range gone r).2 ∧
      Overlaid hidden b (stripAll range gone r).1 (stripAll range gone s).1 := by
  induction gone generalizing r s with
  | nil => exact ⟨rfl, h⟩
  | cons e gone ih =>
    obtain ⟨hmore, hrest⟩ := ih (h.strip e range)
    rw [stripAll_cons, stripAll_cons, h.naming, hmore]
    exact ⟨rfl, hrest⟩

namespace Abreast

section forgetting

theorem unmerge {record : RecordHandle} {touched : List RecordHandle} (h : Abreast hidden b σ x y)
    (hrecord : ¬ hidden record) (hunmerge : x.unmerge record child = (x', .ok touched)) :
    ∃ y', y.unmerge record child = (y', .ok touched) ∧ Abreast hidden b σ x' y' := by
  unfold Exchange.unmerge at hunmerge ⊢
  rw [h.tree.renamed.findExact?]
  cases hfind : x.tree.findExact? child with
  | none =>
    simp only [hfind] at hunmerge
    obtain ⟨rfl, htouched⟩ := Prod.mk.inj hunmerge
    obtain rfl := Except.ok.inj htouched
    exact ⟨y, rfl, h⟩
  | some id =>
    simp only [hfind, Option.map_some, h.tree.renamed.origin?, h.repository.outside hrecord]
      at hunmerge ⊢
    obtain ⟨hgone, htree⟩ := h.tree.detach id
    split_ifs at hunmerge ⊢ with horigin hmissing
    · obtain ⟨rfl, htouched⟩ := Prod.mk.inj hunmerge
      obtain ⟨hsame, hrepository⟩ :=
        stripAll_overlaid x.settings.ownRange (x.tree.detach id).2 h.repository
      rw [hgone, h.settings, hsame, htouched]
      exact ⟨_, rfl, rfl, h.hostUp, h.imports, h.termini, hrepository, htree, h.cycle, h.clear⟩
    · obtain ⟨rfl, htouched⟩ := Prod.mk.inj hunmerge
      obtain rfl := Except.ok.inj htouched
      exact ⟨y, rfl, h⟩
    · split at hunmerge
      next => simp at hunmerge
      next r changed hremove =>
        obtain ⟨rfl, htouched⟩ := Prod.mk.inj hunmerge
        obtain rfl := Except.ok.inj htouched
        obtain ⟨s, hs, hrs⟩ := h.repository.removeChild hrecord hremove
        simp only [hs]
        exact ⟨_, rfl, h.withRepository hrs⟩

theorem unmergeAll {record : RecordHandle} {children : List Entity} {touched : List RecordHandle}
    (h : Abreast hidden b σ x y) (hrecord : ¬ hidden record)
    (hunmerge : unmergeAll record children x = (x', .ok touched)) :
    ∃ y', Exchange.unmergeAll record children y = (y', .ok touched) ∧ Abreast hidden b σ x' y' := by
  induction children generalizing x y touched with
  | nil =>
    obtain ⟨rfl, htouched⟩ := Prod.mk.inj hunmerge
    obtain rfl := Except.ok.inj htouched
    exact ⟨y, rfl, h⟩
  | cons child rest ih =>
    unfold Exchange.unmergeAll at hunmerge
    split at hunmerge
    next => simp at hunmerge
    next z first hchild =>
      split at hunmerge
      next => simp at hunmerge
      next w more hrest =>
        obtain ⟨rfl, htouched⟩ := Prod.mk.inj hunmerge
        obtain rfl := Except.ok.inj htouched
        obtain ⟨z', hz', hz⟩ := h.unmerge hrecord hchild
        obtain ⟨w', hw', hw⟩ := ih hz hrest
        exact ⟨w', by simp only [Exchange.unmergeAll, hz', hw'], hw⟩

theorem dropStored (h : Abreast hidden b σ x y) (hhandle : ¬ hidden handle) :
    (y.dropStored handle).2 = (x.dropStored handle).2 ∧
      Abreast hidden b σ (x.dropStored handle).1 (y.dropStored handle).1 := by
  simp only [Exchange.dropStored, h.repository.outside hhandle]
  cases x.repository.get? handle with
  | none => exact ⟨rfl, h⟩
  | some record =>
    have herase := h.withRepository (h.repository.erase hhandle)
    dsimp only
    split_ifs
    · exact ⟨rfl, herase⟩
    · split
      next locator _ => exact ⟨rfl, herase.withTermini fun termini => termini.erase _⟩
      next => exact ⟨rfl, herase⟩
    · exact ⟨rfl, herase⟩

theorem dropImport {hostHandle : RecordHandle} {result : List RecordHandle × Bool}
    (h : Abreast hidden b σ x y) (hdrop : x.dropImport hostHandle = (x', .ok result)) :
    ∃ y', y.dropImport hostHandle = (y', .ok result) ∧ Abreast hidden b σ x' y' := by
  have hrest : Abreast hidden b σ { x with imports := x.imports.erase hostHandle }
      { y with imports := y.imports.erase hostHandle } := by
    refine ⟨h.settings, h.hostUp, by rw [h.imports], h.termini, h.repository, h.tree, h.cycle,
      fun {k i} hi => ?_⟩
    rw [Std.ExtTreeMap.getElem?_erase] at hi
    split_ifs at hi
    exact h.clear hi
  unfold Exchange.dropImport at hdrop ⊢
  rw [h.imports] at hrest ⊢
  cases hi : x.imports[hostHandle]? with
  | none =>
    simp only [hi] at hdrop
    obtain ⟨rfl, hresult⟩ := Prod.mk.inj hdrop
    obtain rfl := Except.ok.inj hresult
    exact ⟨y, rfl, h⟩
  | some i =>
    cases i with
    | stored handle =>
      have hclear : ¬ hidden handle := h.clear hi
      simp only [hi] at hdrop
      obtain ⟨rfl, hresult⟩ := Prod.mk.inj hdrop
      obtain rfl := Except.ok.inj hresult
      obtain ⟨hsame, hdropped⟩ := hrest.dropStored hclear
      exact ⟨_, by simp only [hsame], hdropped⟩
    | merged parent children record =>
      have hclear : ¬ hidden record := h.clear hi
      simp only [hi] at hdrop ⊢
      split at hdrop
      next => simp at hdrop
      next z touched hunmerge =>
        obtain ⟨rfl, hresult⟩ := Prod.mk.inj hdrop
        obtain rfl := Except.ok.inj hresult
        obtain ⟨z', hz', hz⟩ := hrest.unmergeAll hclear hunmerge
        exact ⟨z', by simp only [hz'], hz⟩

theorem dropImports {hostHandles : List RecordHandle} {result : List RecordHandle × Bool}
    (h : Abreast hidden b σ x y) (hdrop : dropImports hostHandles x = (x', .ok result)) :
    ∃ y', Exchange.dropImports hostHandles y = (y', .ok result) ∧ Abreast hidden b σ x' y' := by
  induction hostHandles generalizing x y result with
  | nil =>
    obtain ⟨rfl, hresult⟩ := Prod.mk.inj hdrop
    obtain rfl := Except.ok.inj hresult
    exact ⟨y, rfl, h⟩
  | cons hostHandle rest ih =>
    unfold Exchange.dropImports at hdrop
    split at hdrop
    next => simp at hdrop
    next z touched sensor hfirst =>
      split at hdrop
      next => simp at hdrop
      next w more sensors hrest =>
        obtain ⟨rfl, hresult⟩ := Prod.mk.inj hdrop
        obtain rfl := Except.ok.inj hresult
        obtain ⟨z', hz', hz⟩ := h.dropImport hfirst
        obtain ⟨w', hw', hw⟩ := ih hz hrest
        exact ⟨w', by simp only [Exchange.dropImports, hz', hw'], hw⟩

theorem forget {hostHandles : List RecordHandle} {touched : HandleSet} (h : Abreast hidden b σ x y)
    (hforget : x.forget hostHandles = (x', .ok touched)) :
    ∃ y', y.forget hostHandles = (y', .ok touched) ∧ Abreast hidden b σ x' y' := by
  unfold Exchange.forget at hforget
  split at hforget
  next => simp at hforget
  next z handles sensors hdrop =>
    obtain ⟨rfl, htouched⟩ := Prod.mk.inj hforget
    obtain rfl := Except.ok.inj htouched
    obtain ⟨z', hz', hz⟩ := h.dropImports hdrop
    refine ⟨if sensors then z'.publishSensors else z', by simp only [Exchange.forget, hz'], ?_⟩
    split_ifs
    · exact hz.publishSensors
    · exact hz

end forgetting

section importing

theorem store {hostHandle : RecordHandle} {record : Bytes} (h : Abreast hidden b σ x y)
    (hstore : x.store hostHandle record = (x', .ok ())) :
    ∃ y', y.store hostHandle record = (y', .ok ()) ∧ Abreast hidden b σ x' y' := by
  unfold Exchange.store at hstore
  split at hstore
  next => simp at hstore
  next r handle hinsert =>
    obtain ⟨rfl, -⟩ := Prod.mk.inj hstore
    obtain ⟨hclear, s, hs, hrs⟩ := h.repository.insert hinsert
    refine ⟨_, by simp only [Exchange.store, hs]; rfl, touch ?_ [handle] [handle]⟩
    have hkept := (h.withRepository hrs).insertImport hostHandle (i := .stored handle) hclear
    exact ⟨hkept.settings, hkept.hostUp, hkept.imports, hkept.termini, hkept.repository, hkept.tree,
      hkept.cycle, hkept.clear⟩

theorem classify {header : RecordHeader} {record : Bytes} (h : Abreast hidden b σ x y)
    (hclassify : x.classify header record = (x', .ok ())) :
    ∃ y', y.classify header record = (y', .ok ()) ∧ Abreast hidden b σ x' y' := by
  rcases classify_uniform header record with hskip | ⟨⟨_, a⟩, -, hmerge⟩ | ⟨note, -, hstore⟩
  · rw [hskip] at hclassify ⊢
    obtain ⟨rfl, -⟩ := Prod.mk.inj hclassify
    exact ⟨_, rfl, h.skip⟩
  · rw [hmerge] at hclassify ⊢
    exact h.merge hclassify
  · rw [hstore] at hclassify ⊢
    exact (h.withTermini note).store hclassify

/-- One record is imported the same way. -/
theorem importRecord {record : Bytes} (h : Abreast hidden b σ x y)
    (himport : x.importRecord record = (x', .ok ())) :
    ∃ y', y.importRecord record = (y', .ok ()) ∧ Abreast hidden b σ x' y' := by
  unfold Exchange.importRecord at himport ⊢
  cases hsplit : RecordHeader.split record with
  | error e =>
    simp only [hsplit] at himport
    obtain ⟨rfl, -⟩ := Prod.mk.inj himport
    exact ⟨_, rfl, h.skip⟩
  | ok split =>
    obtain ⟨header, body⟩ := split
    have hnoted : Abreast hidden b σ
        (x.mapCycle fun c => { c with seen := c.seen.insert header.handle })
        (y.mapCycle fun c => { c with seen := c.seen.insert header.handle }) :=
      h.mapCycle fun _ _ hcd => ⟨hcd.mode, hcd.queue, hcd.inFlight, by rw [hcd.seen],
        hcd.parentFound, hcd.before⟩
    simp only [hsplit] at himport ⊢
    rw [hnoted.imports]
    split_ifs at himport ⊢ with hknown
    · split at himport
      next => simp at himport
      next z touched hforget =>
        obtain ⟨z', hz', hz⟩ := hnoted.forget hforget
        simp only [hz']
        exact (hz.touch _ _).classify himport
    · exact hnoted.classify himport

end importing

section cycle

theorem withCycle {c d : Cycle} (h : Abreast hidden b σ x y) (hcd : c.Matches b d) :
    Abreast hidden b σ { x with cycle := some c } { y with cycle := some d } :=
  ⟨h.settings, h.hostUp, h.imports, h.termini, h.repository, h.tree, ⟨c, d, rfl, rfl, hcd⟩, h.clear⟩

/-- One asks for nothing, or both ask for the same record. -/
theorem nextRequest {asked : Option FetchRequest} (h : Abreast hidden b σ x y)
    (hrequest : x.nextRequest = (x', .ok asked)) : x' = x ∨
      ∃ d y' asked', y.cycle = some d ∧ d.inFlight = none ∧ y.nextRequest = (y', .ok asked') ∧
        Abreast hidden b σ x' y' := by
  obtain ⟨c, d, hc, hd, hcd⟩ := h.cycle
  simp only [Exchange.nextRequest, hc, hd, h.hostUp, hcd.queue, hcd.inFlight] at hrequest ⊢
  split_ifs at hrequest ⊢
  · split at hrequest
    next handle rest hflight _ =>
      obtain ⟨rfl, -⟩ := Prod.mk.inj hrequest
      refine .inr ⟨d, _, _, rfl, hcd.inFlight.trans hflight, rfl, ?_⟩
      have hasked : Cycle.Matches b
          { c with queue := rest, inFlight := some handle, seen := c.seen.insert handle }
          { d with queue := rest, inFlight := some handle, seen := d.seen.insert handle } :=
        ⟨hcd.mode, rfl, rfl, by rw [hcd.seen], hcd.parentFound, hcd.before⟩
      have hwith := h.withCycle hasked
      exact ⟨hwith.settings, rfl, hwith.imports, hwith.termini, hwith.repository, hwith.tree,
        hwith.cycle, hwith.clear⟩
    next =>
      obtain ⟨rfl, -⟩ := Prod.mk.inj hrequest
      exact .inl rfl
  · simp at hrequest

end cycle

end Abreast

/-- Both go on to the next record, or both complete. -/
theorem Abreast.advance {next : RecordHandle} {outcome : FetchOutcome} (h : Abreast hidden b σ x y)
    (hadvance : x.advance next = (x', .ok outcome)) :
    (∃ y', y.advance next = (y', .ok .proceed) ∧ outcome = .proceed ∧ Abreast hidden b σ x' y') ∨
      ∃ u v, ∃ c d : Cycle, Abreast hidden b σ u v ∧ c.Matches b d ∧ x' = u.completed ∧
        outcome = .complete (u.completion? c) ∧
        y.advance next = (v.completed, .ok (.complete (v.completion? d))) := by
  obtain ⟨c, d, hc, hd, hcd⟩ := h.cycle
  have hfollow := hcd.follow next
  rw [advance_eq hc] at hadvance
  rw [advance_eq hd]
  simp only [hcd.mode, hcd.seen, hfollow.queue]
  split_ifs at hadvance ⊢
  · simp at hadvance
  · obtain ⟨rfl, houtcome⟩ := Prod.mk.inj hadvance
    obtain rfl := Except.ok.inj houtcome
    exact .inr ⟨_, _, _, _, h.withCycle hfollow, hfollow, rfl, rfl, rfl⟩
  · obtain ⟨rfl, houtcome⟩ := Prod.mk.inj hadvance
    obtain rfl := Except.ok.inj houtcome
    exact .inl ⟨_, rfl, rfl, h.withCycle hfollow⟩

/-- What one awaits the other awaits, perhaps for another cycle. -/
theorem Abreast.awaits {cycle : CycleId} (h : Abreast hidden b σ x y)
    (hawaited : x.awaited? cycle = some handle) : ∃ id, y.awaited? id = some handle := by
  obtain ⟨c, d, hc, hd, hcd⟩ := h.cycle
  obtain ⟨-, hflight⟩ := (awaited?_of_cycle hc).mp hawaited
  exact ⟨d.id, awaited?_eq_some.mpr ⟨d, hd, rfl, hcd.inFlight.trans hflight⟩⟩

/-- Both take an answer that both await in the same way. -/
theorem Abreast.receive {cycle id : CycleId} {answer : Except RequestError Bytes}
    {outcome : FetchOutcome} (h : Abreast hidden b σ x y)
    (hx : x.awaited? cycle = some handle) (hy : y.awaited? id = some handle)
    (hreceive : x.receive cycle answer = (x', .ok outcome)) :
    (∃ y', y.receive id answer = (y', .ok .proceed) ∧ outcome = .proceed ∧
      Abreast hidden b σ x' y') ∨
      ∃ u v, ∃ c d : Cycle, Abreast hidden b σ u v ∧ c.Matches b d ∧ x' = u.completed ∧
        outcome = .complete (u.completion? c) ∧
        y.receive id answer = (v.completed, .ok (.complete (v.completion? d))) := by
  obtain ⟨c, hc, rfl, hflight⟩ := awaited?_eq_some.mp hx
  obtain ⟨d, hd, rfl, hflight'⟩ := awaited?_eq_some.mp hy
  obtain ⟨c', d', hc', hd', hcd⟩ := h.cycle
  obtain rfl := Option.some.inj (hc.symm.trans hc')
  obtain rfl := Option.some.inj (hd.symm.trans hd')
  have hanswered : Abreast hidden b σ (x.answered c) (y.answered d) :=
    h.withCycle ⟨hcd.mode, hcd.queue, rfl, hcd.seen, hcd.parentFound, hcd.before⟩
  obtain ⟨c', record, next, u, hc', hread, himport, hadvance⟩ := receive_of_awaited hx hreceive
  obtain rfl := Option.some.inj (hc.symm.trans hc')
  obtain ⟨v, hv, huv⟩ := hanswered.importRecord himport
  rw [receive_of_import hd hflight' hread hv]
  exact huv.advance hadvance

section completing

variable {host : RecordHandle → Except RequestError Bytes} {notice notice' : Option ChangeNotice}
  {z : Exchange}

/-- A resync that completes completes for an exchange abreast of it. -/
theorem Completes.abreast (hrun : Completes host x x' notice) (h : Abreast hidden b σ x y) :
    ∃ z notice', Completes host y z notice' := by
  induction hrun using Completes.answers_induction generalizing y with
  | request _ _ hrequest ih =>
    rcases h.nextRequest hrequest with rfl | ⟨d, y', asked', -, -, hy', h'⟩
    · exact ih h
    · obtain ⟨z, notice', hcomplete⟩ := ih h'
      exact ⟨z, notice', .request hy' hcomplete⟩
  | drop _ _ ih => exact ih (h.withStale_left _)
  | receive _ _ hx hreceive hgoes ih =>
    obtain ⟨id, hy⟩ := h.awaits hx
    rcases h.receive hx hy hreceive with ⟨y', hy', -, h'⟩ | ⟨_, _, _, _, -, -, -, hc, -⟩
    · obtain ⟨z, notice', hcomplete⟩ := ih h'
      refine ⟨z, notice', .receive (fun k hk => ?_) hy' (by simp) hcomplete⟩
      rw [Option.some.inj (hy.symm.trans hk)]
    · exact absurd hc (hgoes _)
  | complete _ hx hreceive =>
    obtain ⟨id, hy⟩ := h.awaits hx
    rcases h.receive hx hy hreceive with ⟨_, -, hproceed, -⟩ | ⟨u, v, c, d, -, -, -, -, hcomplete⟩
    · simp at hproceed
    · refine ⟨_, _, .complete (fun k hk => ?_) hcomplete⟩
      rw [Option.some.inj (hy.symm.trans hk)]

/-- However two resyncs abreast of each other come to complete, they complete abreast. -/
theorem Completes.meets (hrun : Completes host x x' notice) (h : Abreast hidden b σ x y)
    (hagain : Completes host y z notice') :
    ∃ u v, ∃ c d : Cycle, Abreast hidden b σ u v ∧ c.Matches b d ∧ x' = u.completed ∧
      z = v.completed ∧ notice' = v.completion? d := by
  induction hrun using Completes.answers_induction generalizing y with
  | request _ _ hrequest ih =>
    rcases h.nextRequest hrequest with rfl | ⟨d, y', asked', hd, hflight, hy', h'⟩
    · exact ih h hagain
    · obtain ⟨k, hk⟩ := hagain.of_idle hd hflight
      rw [hy'] at hk
      exact ih (h'.withStale k) hk
  | drop _ _ ih => exact ih (h.withStale_left _) hagain
  | receive _ _ hx hreceive hgoes ih =>
    obtain ⟨id, hy⟩ := h.awaits hx
    obtain ⟨k, w, outcome, hw, hend⟩ := hagain.of_awaited hy
    rcases (h.withStale k).receive hx hy hreceive with ⟨y', hy', -, h'⟩ |
      ⟨_, _, _, _, -, -, -, hc, -⟩
    · obtain ⟨rfl, hproceed⟩ := Prod.mk.inj (hw.symm.trans hy')
      obtain rfl := Except.ok.inj hproceed
      rcases hend with ⟨hc, -⟩ | ⟨-, hrest⟩
      · simp at hc
      · exact ih h' hrest
    · exact absurd hc (hgoes _)
  | complete _ hx hreceive =>
    obtain ⟨id, hy⟩ := h.awaits hx
    obtain ⟨k, w, outcome, hw, hend⟩ := hagain.of_awaited hy
    rcases (h.withStale k).receive hx hy hreceive with ⟨_, -, hproceed, -⟩ |
      ⟨u, v, c, d, huv, hcd, hfinish, -, hy'⟩
    · simp at hproceed
    · obtain ⟨rfl, hcomplete⟩ := Prod.mk.inj (hw.symm.trans hy')
      obtain rfl := Except.ok.inj hcomplete
      rcases hend with ⟨hnotice, rfl⟩ | ⟨hgoes, -⟩
      · exact ⟨u, v, c, d, huv, hcd, hfinish, rfl, (FetchOutcome.complete.inj hnotice).symm⟩
      · exact absurd rfl (hgoes _)

end completing
end Exchange
end DescriptorExchange
