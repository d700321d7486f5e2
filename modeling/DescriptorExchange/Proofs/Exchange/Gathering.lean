import DescriptorExchange.Proofs.Exchange.Accounts
import DescriptorExchange.Proofs.Exchange.Agenda
import DescriptorExchange.Proofs.Exchange.Contribution
import DescriptorExchange.Proofs.Exchange.Anchored

/-!
What a resync gathers. It imports each record of the host once, and the records after it only add to
the tree and to the listings. So what a record has become can be read off the state in which the
resync completes: a stored record is there with its bytes, and of a merged association no child is
left that merging it again would contribute.
-/
namespace DescriptorExchange

open Repository Containment

/-- The node that an entity names, exactly or by its type and number alone. -/
def Containment.locate? (t : Containment) (exact : Bool) (e : Entity) : Option NodeId :=
  if exact then t.findExact? e else t.findUnit? e

/-- The node that is named is the first one that holds its entity. -/
theorem Containment.findExact?_of_locate? {t : Containment} {exact : Bool} {e : Entity} {i : NodeId}
    (h : t.locate? exact e = some i) :
    ∃ n, t.node? i = some n ∧ t.findExact? n.entity = some i := by
  have hfind (p : Node → Bool) (hp : ∀ n m : Node, n.entity = m.entity → p n = p m)
      (h : t.find? p = some i) : ∃ n, t.node? i = some n ∧ t.findExact? n.entity = some i := by
    obtain ⟨⟨n, hn, hpn⟩, hmin⟩ := find?_eq_some.mp h
    refine ⟨n, hn, findExact?_eq_some_iff.mpr ⟨⟨n, hn, rfl⟩, fun j m hm he => ?_⟩⟩
    exact hmin j m hm (hp m n he ▸ hpn)
  unfold locate? at h
  split_ifs at h
  · exact hfind (fun n => n.entity = e) (fun n m hnm => by rw [hnm]) h
  · exact hfind (fun n => n.entity.sameUnit e) (fun n m hnm => by rw [hnm]) h

namespace Exchange

variable {host : RecordHandle → Except RequestError Bytes} {x y z : Exchange} {r₀ : Repository}
  {t₀ : Containment} {header : RecordHeader} {record : Bytes} {h k : RecordHandle} {i : NodeId}
  {a : Association} {parent : Entity} {children : List Entity}

/-- The host has the record under the handle. -/
def Serves (host : RecordHandle → Except RequestError Bytes) (h : RecordHandle)
    (record : Bytes) : Prop :=
  ∃ next, readAnswer h (host h) = .ok (record, next)

/-- The records of a host carry the handles it has them under. The first one is also under the
terminator. -/
structure Keyed (host : RecordHandle → Except RequestError Bytes) : Prop where
  own : ∀ {h record header body}, h ≠ RecordHandle.terminator → Serves host h record →
    RecordHeader.split record = .ok (header, body) → header.handle = h
  first : ∀ {record header body}, Serves host RecordHandle.terminator record →
    RecordHeader.split record = .ok (header, body) → Serves host header.handle record

/-- An association has been merged under a node, and merging it again would contribute nothing. -/
structure Settled (x : Exchange) (i : NodeId) (a : Association) (parent : Entity)
    (children : List Entity) (k : RecordHandle) : Prop where
  node : x.tree.findExact? parent = some i
  firsts : Firsts (· ∈ children) a.children children
  nonempty : children ≠ []
  done : ∀ c ∈ a.children, ¬ x.Wants i parent a.kind c
  housed : ∀ c ∈ children, x.tree.Houses i c
  record : x.repository.findAssociation? parent a.kind x.repository.ownRange = some k

/-- What a record of the host has become, as it stands. -/
inductive Standing (x : Exchange) (header : RecordHeader) (record : Bytes) : Import → Prop
  | stored {k : RecordHandle} {bytes : Bytes}
      (hstores : ∃ note : Termini → Termini, ∀ z : Exchange, z.classify header record =
        { z with termini := note z.termini }.store header.handle record)
      (hbytes : setRecordHandle k record = .ok bytes)
      (hget : x.repository.get? k = some ⟨header.type, .host, bytes⟩) :
      Standing x header record (.stored k)
  | merged {i : NodeId} {a : Association} {parent : Entity} {children : List Entity}
      {k : RecordHandle} (hread : decodeRecord Association record = .ok (header, a))
      (hsettled : x.Settled i a parent children k) :
      Standing x header record (.merged parent children k)

/-- The import of a record that the host has under a handle. -/
def Imported (host : RecordHandle → Except RequestError Bytes) (x : Exchange) (h : RecordHandle)
    (i : Import) : Prop :=
  ∃ header body record, Serves host h record ∧ RecordHeader.split record = .ok (header, body) ∧
    header.handle = h ∧ x.Standing header record i

/-- The tree and the listings have grown, and the records of the host are still there. -/
structure Furthers (range : HandleRange) (x y : Exchange) : Prop where
  tree : ∃ i es, x.tree.Gains i es y.tree
  repository : x.repository.Lengthens y.repository
  stored : ∀ {k record}, range.contains k = true → x.repository.get? k = some record →
    y.repository.get? k = some record

theorem classify_of_association (x : Exchange)
    (h : decodeRecord Association record = .ok (header, a)) :
    x.classify header record = x.merge header.handle a := by
  obtain ⟨-, -, -, htype, -⟩ := decodeRecord_eq_ok.mp h
  have htype : header.type = .entityAssociation := htype
  simp only [classify, htype, if_true, h]

theorem Furthers.of_eq {range : HandleRange} (htree : y.tree = x.tree)
    (hrepository : y.repository = x.repository) : Furthers range x y where
  tree := ⟨0, [], htree ▸ .refl _ _⟩
  repository := hrepository ▸ .refl _
  stored _ hget := hrepository ▸ hget

theorem Settled.mono {range : HandleRange} (h : x.Settled i a parent children k)
    (hx : x.tree.Forest) (hxy : Furthers range x y) : y.Settled i a parent children k := by
  obtain ⟨j, es, hgains⟩ := hxy.tree
  refine ⟨hgains.findExact? hx h.node, h.firsts, h.nonempty, fun c hc hwants => ?_,
    fun c hc => hgains.houses (h.housed c hc), hxy.repository.found h.record⟩
  have hdone := h.done c hc
  simp only [Wants, not_and_or, not_or, not_not] at hdone
  rcases hdone with ⟨hout, hhas⟩ | henters
  · refine hwants.1.elim (fun hhouses => hout ((hgains.houses_iff_of_has hhas).mp hhouses)) ?_
    exact fun hnew => hnew (hgains.has_iff.mpr (.inl hhas))
  · exact hwants.2 (hxy.repository.enters henters)

theorem Standing.mono {range : HandleRange} {imported : Import}
    (h : x.Standing header record imported) (hx : x.tree.Forest) (hxy : Furthers range x y)
    (hstored : ∀ k, imported = .stored k → range.contains k = true) :
    y.Standing header record imported := by
  cases h with
  | stored hstores hbytes hget => exact .stored hstores hbytes (hxy.stored (hstored _ rfl) hget)
  | merged hread hsettled => exact .merged hread (hsettled.mono hx hxy)

theorem parentNode?_eq (x : Exchange) (e : Entity) :
    x.parentNode? e = x.tree.locate? ((x.cycle.map Cycle.parentFound).getD true) e := by
  unfold parentNode? locate?
  cases x.cycle <;> rfl

/-- What the merge of an association comes to. -/
theorem merge_of_children {n : Node} {new : List (Entity × RecordHandle)}
    (hnode : x.parentNode? a.container = some i) (hn : x.tree.node? i = some n)
    (hmerge : mergeChildren i n.entity a.kind a.children
      (x.mapCycle fun c => { c with parentFound := true }) = (y, .ok new)) :
    x.merge h a = ({ y with
        counts.merged := y.counts.merged + 1
        imports := match new.getLast? with
          | none => y.imports
          | some (_, k) => y.imports.insert h (.merged n.entity (new.map Prod.fst) k) },
      .ok ()) := by
  have hentity : x.tree.entity? i = some n.entity := entity?_eq_some.mpr ⟨n, hn, rfl⟩
  simp only [merge, hnode, hentity, hmerge]
  cases new.getLast? <;> rfl

/-- A record of which there is no import is imported as it is. -/
theorem importRecord_of_unknown {body : Bytes}
    (hsplit : RecordHeader.split record = .ok (header, body))
    (hfree : x.imports[header.handle]? = none) :
    x.importRecord record = (x.see header.handle).classify header record := by
  simp only [importRecord, hsplit]
  rw [if_neg]
  · rfl
  rw [Std.ExtTreeMap.mem_iff_isSome_getElem?]
  exact fun hknown => Bool.false_ne_true ((congrArg Option.isSome hfree).symm.trans hknown)

section gather

variable (hbase : Planted r₀ t₀)
include hbase

/-- An association that is merged is settled. -/
theorem merge_gathers (hx : Anchored r₀ t₀ x) (hmerge : x.merge h a = (y, .ok ())) :
    Furthers r₀.hostRange x y ∧
      ∀ j imported, y.imports[j]? = some imported → x.imports[j]? = some imported ∨
        j = h ∧ ∃ i parent children k, imported = .merged parent children k ∧
          y.Settled i a parent children k := by
  cases hnode : x.parentNode? a.container with
  | none =>
    simp only [merge, hnode, Prod.mk.injEq, and_true] at hmerge
    obtain rfl := hmerge
    exact ⟨.of_eq rfl rfl, fun _ _ => .inl⟩
  | some i =>
    obtain ⟨n, hn, hfind⟩ := findExact?_of_locate? ((parentNode?_eq x a.container).symm.trans hnode)
    have hseen : GraftedIn r₀ t₀ (x.mapCycle fun c => { c with parentFound := true }) x.claimed :=
      ⟨hx.graft.range, hx.graft.grafted⟩
    cases hchildren : mergeChildren i n.entity a.kind a.children
      (x.mapCycle fun c => { c with parentFound := true }) with
    | mk z result =>
    cases result with
    | error e =>
      have hentity : x.tree.entity? i = some n.entity := entity?_eq_some.mpr ⟨n, hn, rfl⟩
      simp [merge, hnode, hentity, hchildren] at hmerge
    | ok new =>
      have hmerged := mergeChildren_mergesInto hbase.ranges hseen hn hchildren
      have hcontributes := mergeChildren_contributes hbase.ranges hseen hn hchildren
      rw [merge_of_children hnode hn hchildren] at hmerge
      obtain ⟨rfl, -⟩ := Prod.mk.inj hmerge
      have hfurthers : Furthers r₀.hostRange x z := by
        refine ⟨⟨i, a.children, hcontributes.tree⟩, hcontributes.repository, fun {j r} hj hget => ?_⟩
        exact (hcontributes.others.others j r (.inl (hx.not_own hbase hj))).mpr hget
      refine ⟨⟨hfurthers.tree, hfurthers.repository, hfurthers.stored⟩, fun j imported hj => ?_⟩
      have himports : z.imports = x.imports := hmerged.imports
      -- there is an import if a child has been contributed, and it names the record of the last one
      cases hlast : new.getLast? with
      | none =>
        simp only [hlast, himports] at hj
        exact .inl hj
      | some last =>
        obtain ⟨child, k⟩ := last
        simp only [hlast, himports, imports_insert] at hj
        split_ifs at hj with hjh
        · obtain rfl := Option.some.inj hj
          refine .inr ⟨hjh, i, _, _, k, rfl, ?_⟩
          refine ⟨hcontributes.tree.findExact? hx.graft.grafted.tree.forest hfind, ?_, ?_,
            fun c hc hwants => ((hcontributes.wants c).mp hwants).2 hc, hcontributes.under,
            hmerged.found k (.inl ⟨child, List.mem_of_getLast? hlast⟩)⟩
          · refine hcontributes.firsts.congr fun c hc => ?_
            rw [hcontributes.firsts.mem, and_iff_right hc]
          · intro hnil
            simp [List.map_eq_nil_iff.mp hnil] at hlast
        · exact .inl hj

/-- Storing a record of which there is no import yet. -/
theorem store_gathers (hx : Anchored r₀ t₀ x) (hnew : x.imports[header.handle]? = none)
    (hsplit : ∃ body, RecordHeader.split record = .ok (header, body))
    (hstore : x.store header.handle record = (y, .ok ())) : Furthers r₀.hostRange x y ∧
      ∀ j imported, y.imports[j]? = some imported → x.imports[j]? = some imported ∨
        j = header.handle ∧ ∃ k bytes, imported = .stored k ∧
          setRecordHandle k record = .ok bytes ∧
          y.repository.get? k = some ⟨header.type, .host, bytes⟩ := by
  have hext := hx.graft.grafted.repository
  have hy := store_anchored hbase hx hnew hstore
  unfold store at hstore
  split at hstore
  next => simp at hstore
  next s k hinsert =>
    obtain ⟨rfl, -⟩ := Prod.mk.inj hstore
    obtain ⟨header', body, bytes, hsplit', hslot, hset, rfl⟩ := insert_eq_ok.mp hinsert
    obtain ⟨body', hsplit⟩ := hsplit
    obtain ⟨rfl, -⟩ := Prod.mk.inj (Except.ok.inj (hsplit.symm.trans hsplit'))
    have hproper : x.repository.hostRange.first ≤ x.repository.hostRange.last :=
      hext.hostRange ▸ hbase.ranges.hostProper
    obtain ⟨hin, hfree⟩ : x.repository.hostRange.contains k = true ∧ _ :=
      slot?_spec .host hproper hslot
    have hhost : r₀.hostRange.contains k = true := hext.hostRange ▸ hin
    have hout := hx.not_own hbase hhost
    have hholds {j : RecordHandle} {b : Association} :
        (x.repository.put k ⟨header.type, .host, bytes⟩).Holds j b ↔ x.repository.Holds j b := by
      refine Holds.iff_of_own rfl fun i hi => get?_put_ne _ _ ?_
      rintro rfl
      exact Bool.false_ne_true (hout.symm.trans hi)
    refine ⟨⟨⟨0, [], .refl _ _⟩, .of_holds hext.tidy hy.graft.grafted.repository.tidy hholds,
      fun {j old} _ hget => ?_⟩, fun j imported hj => ?_⟩
    · change (x.repository.put k ⟨header.type, .host, bytes⟩).get? j = _
      rw [get?_put_ne _ _ (by rintro rfl; simp [hfree] at hget), hget]
    · change (x.imports.insert header.handle (.stored k))[j]? = _ at hj
      rw [imports_insert] at hj
      split_ifs at hj with hjh
      · obtain rfl := Option.some.inj hj
        exact .inr ⟨hjh, k, bytes, rfl, hset, get?_put_self _ _ _⟩
      · exact .inl hj

/-- What a record becomes, of which there is no import. -/
theorem classify_gathers {body : Bytes} (hx : Anchored r₀ t₀ x)
    (hnew : x.imports[header.handle]? = none)
    (hsplit : RecordHeader.split record = .ok (header, body))
    (hclassify : x.classify header record = (y, .ok ())) :
    Furthers r₀.hostRange x y ∧
      ∀ j imported, y.imports[j]? = some imported → x.imports[j]? = some imported ∨
        j = header.handle ∧ y.Standing header record imported := by
  rcases classify_uniform header record with hskip | ⟨⟨header', a⟩, hread, hmerge⟩ |
    ⟨note, -, hstore⟩
  · rw [hskip] at hclassify
    obtain ⟨rfl, -⟩ := Prod.mk.inj hclassify
    exact ⟨.of_eq rfl rfl, fun _ _ => .inl⟩
  · rw [hmerge] at hclassify
    obtain ⟨body', -, hsplit', -⟩ := decodeRecord_eq_ok.mp hread
    obtain ⟨rfl, -⟩ := Prod.mk.inj (Except.ok.inj (hsplit.symm.trans hsplit'))
    obtain ⟨hfurthers, himports⟩ := merge_gathers hbase hx hclassify
    refine ⟨hfurthers, fun j imported hj => (himports j imported hj).imp_right ?_⟩
    rintro ⟨rfl, i, parent, children, k, rfl, hsettled⟩
    exact ⟨rfl, .merged hread hsettled⟩
  · rw [hstore] at hclassify
    have hknown : Anchored r₀ t₀ { x with termini := note x.termini } := hx.congr rfl rfl rfl rfl
    obtain ⟨hfurthers, himports⟩ := store_gathers hbase hknown hnew ⟨body, hsplit⟩ hclassify
    refine ⟨⟨hfurthers.tree, hfurthers.repository, hfurthers.stored⟩, fun j imported hj => ?_⟩
    refine (himports j imported hj).imp_right ?_
    rintro ⟨rfl, k, bytes, rfl, hset, hget⟩
    exact ⟨rfl, .stored ⟨note, hstore⟩ hset hget⟩

/-- Importing a record of which there is no import yet. -/
theorem importRecord_gathers (hx : Anchored r₀ t₀ x)
    (hnew : ∀ header body, RecordHeader.split record = .ok (header, body) →
      header.handle ∉ x.imports) (himport : x.importRecord record = (y, .ok ())) :
    Furthers r₀.hostRange x y ∧
      ∀ j imported, y.imports[j]? = some imported → x.imports[j]? = some imported ∨
        ∃ header body, RecordHeader.split record = .ok (header, body) ∧ header.handle = j ∧
          y.Standing header record imported := by
  cases hsplit : RecordHeader.split record with
  | error e =>
    simp only [importRecord, hsplit] at himport
    obtain ⟨rfl, -⟩ := Prod.mk.inj himport
    exact ⟨.of_eq rfl rfl, fun _ _ => .inl⟩
  | ok found =>
    obtain ⟨header, body⟩ := found
    have hseen : Anchored r₀ t₀ (x.see header.handle) := hx.congr rfl rfl rfl rfl
    have hnone : x.imports[header.handle]? = none :=
      Std.ExtTreeMap.getElem?_eq_none (hnew header body hsplit)
    rw [importRecord_of_unknown hsplit hnone] at himport
    obtain ⟨hfurthers, himports⟩ := classify_gathers hbase hseen hnone hsplit himport
    refine ⟨⟨hfurthers.tree, hfurthers.repository, hfurthers.stored⟩, fun j imported hj => ?_⟩
    refine (himports j imported hj).imp_right ?_
    rintro ⟨rfl, hstanding⟩
    exact ⟨header, body, rfl, rfl, hstanding⟩

/-- Completing a cycle writes nothing but containers into effecters. -/
theorem completed_furthers (hx : Anchored r₀ t₀ x) :
    Furthers r₀.hostRange x x.completed := by
  have hfixed := applyFixups_alike x.settings x.settings.fixups x.repository
  have hy := completed_anchored hx
  refine ⟨⟨0, [], .refl _ _⟩, .of_holds hx.graft.grafted.repository.tidy
    hy.graft.grafted.repository.tidy hfixed.rewritten.holds, fun hk hget => ?_⟩
  exact (get?_applyFixups x.settings x.settings.fixups (.inl (hx.not_own hbase hk))).trans hget

end gather

/-- A resync under way: what has been imported stands, and the record to be imported next is none of
it. -/
structure Gathering (host : RecordHandle → Except RequestError Bytes) (r₀ : Repository)
    (t₀ : Containment) (x : Exchange) (c : Cycle) : Prop where
  anchored : Anchored r₀ t₀ x
  imports : ∀ {h i}, x.imports[h]? = some i → Imported host x h i
  cycle : x.cycle = some c
  mode : c.mode = .chain
  seen : ∀ h ∈ x.imports, h ∈ c.seen
  pending : ∃ p, c.pending = [p] ∧ p ∉ x.imports ∧ (p = RecordHandle.terminator → x.imports = ∅)
  up : x.hostUp = true ∨ c.inFlight = none

/-- What a completed resync leaves behind. -/
structure Gathered (host : RecordHandle → Except RequestError Bytes) (r₀ : Repository)
    (t₀ : Containment) (x : Exchange) : Prop where
  anchored : Anchored r₀ t₀ x
  imports : ∀ {h i}, x.imports[h]? = some i → Imported host x h i
  cycle : x.cycle = none
  up : x.hostUp = true
  fixed : (applyFixups x.settings x.settings.fixups x.repository).1 = x.repository

theorem Imported.mono {imported : Import} (h : Imported host x k imported)
    (hx : Anchored r₀ t₀ x) (hk : x.imports[k]? = some imported)
    (hxy : Furthers r₀.hostRange x y) : Imported host y k imported := by
  obtain ⟨header, body, record, hserves, hsplit, hhandle, hstanding⟩ := h
  exact ⟨header, body, record, hserves, hsplit, hhandle,
    hstanding.mono hx.graft.grafted.tree.forest hxy fun j hj => hx.stored (hj ▸ hk)⟩

section run

variable {c : Cycle}

theorem Gathering.request {asked : Option FetchRequest} (hx : Gathering host r₀ t₀ x c)
    (hrequest : x.nextRequest = (y, .ok asked)) : ∃ d, Gathering host r₀ t₀ y d := by
  have hup : x.hostUp = true := by
    by_contra hdown
    simp [nextRequest, hx.cycle, hdown] at hrequest
  have hy := nextRequest_anchored hx.anchored
  rcases x.nextRequest_cases with heq | heq | ⟨d, handle, rest, phase, hd, hflight, hqueue, heq⟩
  · obtain ⟨rfl, -⟩ := Prod.mk.inj (hrequest.symm.trans heq)
    exact ⟨c, hx⟩
  · simp [heq] at hrequest
  · rw [heq] at hy
    obtain ⟨rfl, -⟩ := Prod.mk.inj (hrequest.symm.trans heq)
    obtain rfl := Option.some.inj (hx.cycle.symm.trans hd)
    refine ⟨_, hy, fun hi => ?_, rfl, hx.mode, fun h hh => ?_, ?_, .inl hup⟩
    · exact (hx.imports hi).mono hx.anchored hi (.of_eq rfl rfl)
    · exact Std.ExtTreeSet.mem_insert.mpr (.inr (hx.seen h hh))
    · obtain ⟨p, hp, hnew⟩ := hx.pending
      refine ⟨p, ?_, hnew⟩
      simpa [Cycle.pending, hflight, hqueue] using hp

/-- The record that has been waited for is imported. -/
theorem Gathering.importRecord (hbase : Planted r₀ t₀) (hkeyed : Keyed host)
    (hx : Gathering host r₀ t₀ x c) (hflight : c.inFlight = some h) (hserves : Serves host h record)
    (himport : (x.answered c).importRecord record = (z, .ok ())) :
    Anchored r₀ t₀ z ∧ (∀ {j i}, z.imports[j]? = some i → Imported host z j i) ∧
      ∃ d, z.cycle = some d ∧ d.mode = .chain ∧ d.queue = [] ∧ d.inFlight = none ∧
        ∀ j ∈ z.imports, j ∈ d.seen := by
  obtain ⟨p, hp, hfree, hempty⟩ := hx.pending
  obtain ⟨rfl, hqueue⟩ : h = p ∧ c.queue = [] := by simpa [Cycle.pending, hflight] using hp
  have hanswered : Anchored r₀ t₀ (x.answered c) := hx.anchored.congr rfl rfl rfl rfl
  have hnew (header : RecordHeader) (body : Bytes)
      (hsplit : RecordHeader.split record = .ok (header, body)) :
      header.handle ∉ (x.answered c).imports ∧ Serves host header.handle record := by
    by_cases hh : h = RecordHandle.terminator
    · refine ⟨?_, hkeyed.first (hh ▸ hserves) hsplit⟩
      change header.handle ∉ x.imports
      simp [hempty hh]
    · rw [hkeyed.own hh hserves hsplit]
      exact ⟨hfree, hserves⟩
  obtain ⟨⟨htree, hrepository, hstored⟩, himports⟩ := importRecord_gathers hbase hanswered
    (fun header body hsplit => (hnew header body hsplit).1) himport
  obtain ⟨d, hd, -, hmode, hqueue', hflight', hseen⟩ :=
    importRecord_cycle (x := x.answered c) rfl record
  rw [himport] at hd
  have hold {j : RecordHandle} {i : Import} (hj : x.imports[j]? = some i) : j ∈ d.seen := by
    refine (hseen j).mpr (.inl (hx.seen j ?_))
    rw [Std.ExtTreeMap.mem_iff_isSome_getElem?, hj]
    rfl
  refine ⟨importRecord_anchored hbase hanswered himport, fun {j i} hj => ?_, d, hd,
    hmode.trans hx.mode, hqueue'.trans hqueue, hflight', fun j hj => ?_⟩
  · rcases himports j i hj with hj | ⟨header, body, hsplit, rfl, hstanding⟩
    · exact (hx.imports hj).mono hx.anchored hj ⟨htree, hrepository, hstored⟩
    · exact ⟨header, body, record, (hnew header body hsplit).2, hsplit, rfl, hstanding⟩
  · rw [Std.ExtTreeMap.mem_iff_isSome_getElem?, Option.isSome_iff_exists] at hj
    obtain ⟨i, hj⟩ := hj
    rcases himports j i hj with hj | ⟨header, body, hsplit, rfl, -⟩
    · exact hold hj
    · exact (hseen _).mpr (.inr ⟨header, body, hsplit, rfl⟩)

/-- The answer that has been waited for leads on along the chain or to the end of the resync. -/
theorem Gathering.receive (hbase : Planted r₀ t₀) (hkeyed : Keyed host) {outcome : FetchOutcome}
    (hx : Gathering host r₀ t₀ x c) (hflight : c.inFlight = some h)
    (hreceive : x.receive c.id (host h) = (y, .ok outcome)) :
    (outcome = .proceed ∧ ∃ d, Gathering host r₀ t₀ y d) ∨
      ∃ notice, outcome = .complete notice ∧ Gathered host r₀ t₀ y := by
  obtain ⟨c', record, next, z, hc', hread, himport, hadvance⟩ :=
    receive_of_awaited (awaited?_eq_some.mpr ⟨c, hx.cycle, rfl, hflight⟩) hreceive
  obtain rfl := Option.some.inj (hx.cycle.symm.trans hc')
  obtain ⟨hz, himports, d, hd, hmode, hqueue, hflight', hseen⟩ :=
    hx.importRecord hbase hkeyed hflight ⟨next, hread⟩ himport
  have hup : z.hostUp = true := by
    have hfixed := (importRecord_accounts himport).fixed
    exact (congrArg (·.2.2) hfixed).trans (hx.up.resolve_right (by simp [hflight]))
  rw [advance_eq hd] at hadvance
  split_ifs at hadvance with hloop hlast
  · simp at hadvance
  · right
    obtain ⟨rfl, hdone⟩ := Prod.mk.inj hadvance
    obtain rfl := Except.ok.inj hdone
    have hfollowed : Anchored r₀ t₀ { z with cycle := some (d.follow next) } :=
      hz.congr rfl rfl rfl rfl
    obtain ⟨htree, hrepository, hstored⟩ := completed_furthers hbase hfollowed
    exact ⟨_, rfl, completed_anchored hfollowed,
      fun hi => (himports hi).mono hz hi ⟨htree, hrepository, hstored⟩, rfl, hup,
      applyFixups_idem _ _ _⟩
  · left
    obtain ⟨rfl, hgoes⟩ := Prod.mk.inj hadvance
    -- nothing else is queued, so that the cycle goes on with the next record of the chain
    have hfollows : d.mode = .chain ∧ next ≠ RecordHandle.terminator := by
      by_contra hends
      simp [Cycle.follow, if_neg hends, hqueue] at hlast
    have hnext : next ∉ d.seen := fun hmem => hloop ⟨hfollows, hmem⟩
    have hfollow : d.follow next =
        { d with seen := d.seen.insert next, queue := d.queue ++ [next] } := if_pos hfollows
    rw [hfollow]
    have hfree : next ∉ z.imports := fun hmem => hnext (hseen next hmem)
    refine ⟨(Except.ok.inj hgoes).symm, _, hz.congr rfl rfl rfl rfl, fun hi => ?_, rfl, hmode,
      fun j hj => ?_, ⟨next, ?_, hfree, fun hnil => absurd hnil hfollows.2⟩, .inl hup⟩
    · exact (himports hi).mono hz hi (.of_eq rfl rfl)
    · exact Std.ExtTreeSet.mem_insert.mpr (.inr (hseen j hj))
    · simp [Cycle.pending, hflight', hqueue]

/-- A resync that completes against a host whose records are keyed has gathered them. -/
theorem Completes.gathered (hbase : Planted r₀ t₀) (hkeyed : Keyed host)
    {notice : Option ChangeNotice} (h : Completes host x y notice)
    (hx : Gathering host r₀ t₀ x c) : Gathered host r₀ t₀ y := by
  induction h using Completes.answers_induction generalizing c with
  | request _ _ hrequest ih =>
    obtain ⟨d, hd⟩ := hx.request hrequest
    exact ih hd
  | drop _ _ ih =>
    exact ih ⟨hx.anchored.congr rfl rfl rfl rfl,
      fun hi => (hx.imports hi).mono hx.anchored hi (.of_eq rfl rfl), hx.cycle, hx.mode, hx.seen,
      hx.pending, hx.up⟩
  | receive _ _ hawaited hreceive hgoes ih =>
    obtain ⟨rfl, hflight⟩ := (awaited?_of_cycle hx.cycle).mp hawaited
    rcases hx.receive hbase hkeyed hflight hreceive with ⟨-, d, hd⟩ | ⟨n, hn, -⟩
    · exact ih hd
    · exact absurd hn (hgoes n)
  | complete _ hawaited hreceive =>
    obtain ⟨rfl, hflight⟩ := (awaited?_of_cycle hx.cycle).mp hawaited
    rcases hx.receive hbase hkeyed hflight hreceive with ⟨hn, -⟩ | ⟨-, -, hy⟩
    · simp at hn
    · exact hy

/-- A resync begins with nothing imported. -/
theorem beginResync_gathering (hbase : Planted r₀ t₀) (hx : Anchored r₀ t₀ x) :
    ∃ c, Gathering host r₀ t₀ x.beginResync.1 c := by
  obtain ⟨c, hc, hfresh, -⟩ := beginResync_cycle hbase hx
  have himports := (beginResync_restored hbase hx).imports
  refine ⟨c, beginResync_anchored hbase hx, fun hi => ?_, hc, hfresh.mode, fun h hh => ?_,
    ⟨RecordHandle.terminator, ?_, ?_, fun _ => himports⟩, .inr hfresh.inFlight⟩
  · simp [himports] at hi
  · simp [himports] at hh
  · simp [Cycle.pending, hfresh.queue, hfresh.inFlight]
  · simp [himports]

end run

end Exchange
end DescriptorExchange
