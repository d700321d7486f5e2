import DescriptorExchange.Proofs.Exchange.Idempotence
import DescriptorExchange.Proofs.Exchange.Remerging

/-!
Fetching records again that have not changed. Each of them is forgotten and imported once more, which
leaves all as it was where the record comes back to its place. A fetch of such records has nothing to
tell. It may tell a change where one of them does not: nodes that other records have brought go with
the node they lie below, and a record stored anew may get another handle.
-/
namespace DescriptorExchange.Exchange

open Repository Containment

variable {host : RecordHandle → Except RequestError Bytes} {x y z : Exchange} {r₀ : Repository}
  {t₀ : Containment} {header : RecordHeader} {record : Bytes} {h k : RecordHandle} {i : NodeId}
  {a : Association} {parent : Entity} {children : List Entity} {c : Cycle} {found : Bool}
  {rest : List RecordHandle}

/-- The records that a host has under some handles can be fetched one after another and leave all as
it is. The flag says whether an association before them has found its parent. -/
inductive Repeats (host : RecordHandle → Except RequestError Bytes) (x : Exchange) :
    Bool → List RecordHandle → Prop
  | nil {found : Bool} : Repeats host x found []
  /-- The record is stored under the handle that it would be given without it. -/
  | stored {found : Bool} {h k : RecordHandle} {rest : List RecordHandle}
      (himport : x.imports[h]? = some (.stored k))
      (hslot : (x.repository.erase k).slot? .host h = some k) (hrest : Repeats host x found rest) :
      Repeats host x found (h :: rest)
  /-- The association names the node that it has been merged under, and its children can be taken
  back. -/
  | merged {found : Bool} {h k : RecordHandle} {rest : List RecordHandle} {record : Bytes}
      {header : RecordHeader} {a : Association} {i : NodeId} {n : Node} {children : List Entity}
      (himport : x.imports[h]? = some (.merged n.entity children k)) (hserves : Serves host h record)
      (hread : decodeRecord Association record = .ok (header, a))
      (hlocate : x.tree.locate? found a.container = some i) (hn : x.tree.node? i = some n)
      (hrecoverable : x.Recoverable n.entity a.kind children k) (hrest : Repeats host x true rest) :
      Repeats host x found (h :: rest)
  /-- The record is one that is skipped. -/
  | skipped {found : Bool} {h : RecordHandle} {rest : List RecordHandle} {record : Bytes}
      (hfree : x.imports[h]? = none) (hserves : Serves host h record)
      (hskip : ∀ header body, RecordHeader.split record = .ok (header, body) →
        ∀ z : Exchange, z.classify header record = (z.skip, .ok ()))
      (hrest : Repeats host x found rest) : Repeats host x found (h :: rest)
  /-- The association names no node. -/
  | orphaned {found : Bool} {h : RecordHandle} {rest : List RecordHandle} {record : Bytes}
      {header : RecordHeader} {a : Association} (hfree : x.imports[h]? = none)
      (hserves : Serves host h record)
      (hread : decodeRecord Association record = .ok (header, a))
      (hlocate : x.tree.locate? found a.container = none) (hrest : Repeats host x found rest) :
      Repeats host x found (h :: rest)
  /-- The association names a node and would contribute nothing. -/
  | idle {found : Bool} {h : RecordHandle} {rest : List RecordHandle} {record : Bytes}
      {header : RecordHeader} {a : Association} {i : NodeId} {n : Node}
      (hfree : x.imports[h]? = none) (hserves : Serves host h record)
      (hread : decodeRecord Association record = .ok (header, a))
      (hlocate : x.tree.locate? found a.container = some i) (hn : x.tree.node? i = some n)
      (hdone : ∀ e ∈ a.children, ¬ x.Wants i n.entity a.kind e) (hrest : Repeats host x true rest) :
      Repeats host x found (h :: rest)

/-- The exchange is as it was, but for the ids of nodes that have nothing below them. -/
structure Unmoved (x y : Exchange) : Prop where
  repository : y.repository = x.repository
  imports : y.imports = x.imports
  places : x.tree.SamePlaces y.tree

namespace Unmoved

theorem trans (hxy : Unmoved x y) (hyz : Unmoved y z) : Unmoved x z where
  repository := hyz.repository.trans hxy.repository
  imports := hyz.imports.trans hxy.imports
  places := hxy.places.trans hyz.places

theorem wants_iff (hxy : Unmoved x y) {e : Entity} :
    y.Wants i parent a.kind e ↔ x.Wants i parent a.kind e := by
  rw [Wants, Wants, hxy.places.houses_iff, hxy.places.has_iff, hxy.repository]

theorem recoverable (hxy : Unmoved x y) (hx : x.tree.Forest) (hy : y.tree.Forest)
    (h : x.Recoverable parent a.kind children k) : y.Recoverable parent a.kind children k where
  leaves e he hguest d hd :=
    h.leaves e he (hxy.places.guest_iff.mp hguest) d ((hxy.places.contains_iff hx hy).mp hd)
  listed e he hguest j p hnames :=
    h.listed e he (hxy.places.guest_iff.mp hguest) j p (hxy.repository ▸ hnames)
  last := hxy.repository ▸ h.last

section anchored

variable (hx : Anchored r₀ t₀ x) (hy : Anchored r₀ t₀ y) (hxy : Unmoved x y)
include hx hy hxy

/-- What an entity names it still names, under the same id if that has children. -/
theorem locate? (hstart : found = false → y.tree = x.tree) {e : Entity}
    (hlocate : x.tree.locate? found e = some i) : ∃ j, y.tree.locate? found e = some j ∧
      y.tree.entity? j = x.tree.entity? i ∧ (∀ c, y.tree.Houses j c ↔ x.tree.Houses i c) ∧
      ∀ c, x.tree.Houses i c → j = i := by
  cases found with
  | true =>
    have hfind : x.tree.findExact? e = some i := hlocate
    obtain ⟨j, hj, hhouses, hsame⟩ :=
      hxy.places.findExact? hx.graft.grafted.tree hy.graft.grafted.tree hfind
    refine ⟨j, hj, ?_, hhouses, hsame⟩
    rw [entity?_eq_some.mpr (findExact?_eq_some hj), entity?_eq_some.mpr (findExact?_eq_some hfind)]
  | false =>
    rw [hstart rfl]
    exact ⟨i, hlocate, rfl, fun _ => Iff.rfl, fun _ _ => rfl⟩

omit hx hy in
theorem locate?_eq_none (hstart : found = false → y.tree = x.tree) {e : Entity}
    (hlocate : x.tree.locate? found e = none) : y.tree.locate? found e = none := by
  cases found with
  | true =>
    refine findExact?_eq_none_iff.mpr fun hhas => ?_
    exact findExact?_eq_none_iff.mp hlocate (hxy.places.has_iff.mp hhas)
  | false =>
    rw [hstart rfl]
    exact hlocate

theorem settled (h : x.Settled i a parent children k) : y.Settled i a parent children k := by
  have hlocate : x.tree.locate? true parent = some i := h.node
  obtain ⟨j, hfind, -, -, hsame⟩ := hxy.locate? hx hy (fun hnone => by simp at hnone) hlocate
  obtain ⟨e, he⟩ := List.exists_mem_of_ne_nil _ h.nonempty
  obtain rfl := hsame e (h.housed e he)
  exact ⟨hfind, h.firsts, h.nonempty, fun e he => mt hxy.wants_iff.mp (h.done e he),
    fun e he => hxy.places.houses_iff.mpr (h.housed e he), hxy.repository ▸ h.record⟩

end anchored

end Unmoved

theorem Serves.inj {record' : Bytes} (h : Serves host k record) (h' : Serves host k record') :
    record = record' := by
  obtain ⟨next, h⟩ := h
  obtain ⟨next', h'⟩ := h'
  exact (Prod.mk.inj (Except.ok.inj (h.symm.trans h'))).1

/-- Importing the record of a handle once more leaves all as it is, and the records after it can be
fetched again in turn. -/
def Reimports (host : RecordHandle → Except RequestError Bytes) (x y : Exchange) (h : RecordHandle)
    (rest : List RecordHandle) : Prop :=
  ∃ record z found, Serves host h record ∧ y.importRecord record = (z, .ok ()) ∧ Unmoved x z ∧
    z.cycle.map Cycle.parentFound = some found ∧ (found = false → z.tree = x.tree) ∧
    Repeats host x found rest

/-- A record that is no association leaves the tree alone, and so does one that names no node. -/
theorem Unmoved.reimports_of_tree (hxy : Unmoved x y)
    (hfound : y.cycle.map Cycle.parentFound = some found)
    (hstart : found = false → y.tree = x.tree) (hserves : Serves host h record)
    (hrest : Repeats host x found rest)
    (himport : ∃ z, y.importRecord record = (z, .ok ()) ∧ z.repository = y.repository ∧
      z.tree = y.tree ∧ z.imports = y.imports ∧
      z.cycle.map Cycle.parentFound = y.cycle.map Cycle.parentFound) :
    Reimports host x y h rest := by
  obtain ⟨z, hz, hrepository, htree, himports, hkept⟩ := himport
  have hyz : Unmoved y z := ⟨hrepository, himports, htree ▸ .refl _⟩
  exact ⟨record, z, found, hserves, hz, hxy.trans hyz, hkept.trans hfound,
    fun hnone => htree.trans (hstart hnone), hrest⟩

/-- An association that names a node may bring its children back under other ids. -/
theorem Unmoved.reimports_of_places (hxy : Unmoved x y) (hserves : Serves host h record)
    (hrest : Repeats host x true rest)
    (himport : ∃ z, y.importRecord record = (z, .ok ()) ∧ z.repository = y.repository ∧
      y.tree.SamePlaces z.tree ∧ z.imports = y.imports ∧
      z.cycle.map Cycle.parentFound = some true) : Reimports host x y h rest := by
  obtain ⟨z, hz, hrepository, hplaces, himports, hfound⟩ := himport
  have hyz : Unmoved y z := ⟨hrepository, himports, hplaces⟩
  exact ⟨record, z, true, hserves, hz, hxy.trans hyz, hfound, fun hnone => by simp at hnone, hrest⟩

/-- The first of some records that can be fetched again is imported once more. -/
theorem importRecord_again (hbase : Planted r₀ t₀) (hkeyed : Keyed host)
    (hx : Gathered host r₀ t₀ x) (hy : Anchored r₀ t₀ y) (hxy : Unmoved x y)
    (hfound : y.cycle.map Cycle.parentFound = some found)
    (hstart : found = false → y.tree = x.tree) (hh : h ≠ RecordHandle.terminator)
    (hrepeats : Repeats host x found (h :: rest)) : Reimports host x y h rest := by
  cases hrepeats with
  | @stored _ _ k _ himport hslot hrest =>
    obtain ⟨header, body, record, hserves, hsplit, hhandle, hstanding⟩ := hx.imports himport
    have hstanding : y.Standing header record (.stored k) := by
      cases hstanding with
      | stored hstores hbytes hget => exact .stored hstores hbytes (hxy.repository ▸ hget)
    exact hxy.reimports_of_tree hfound hstart hserves hrest (importRecord_stored
      (hxy.imports ▸ himport) hsplit hhandle hstanding (hxy.repository ▸ hslot))
  | @merged _ _ k _ record header a i n children himport hserves hread hlocate hn hrecoverable
      hrest =>
    obtain ⟨header', body, record', hserves', hsplit, hhandle, hstanding⟩ := hx.imports himport
    obtain rfl := hserves.inj hserves'
    cases hstanding with
    | @merged j a' _ _ _ hread' hsettled =>
    obtain ⟨rfl, rfl⟩ := Prod.mk.inj (Except.ok.inj (hread.symm.trans hread'))
    obtain ⟨n', hn', hfind⟩ := findExact?_of_locate? hlocate
    obtain rfl := Option.some.inj (hn.symm.trans hn')
    obtain rfl := Option.some.inj (hfind.symm.trans hsettled.node)
    -- the node that is named now is the one it was merged under, as that one has children
    obtain ⟨j, hlocate', -, -, hsame⟩ := hxy.locate? hx.anchored hy hstart hlocate
    obtain ⟨e, he⟩ := List.exists_mem_of_ne_nil _ hsettled.nonempty
    obtain rfl := hsame e (hsettled.housed e he)
    have hsettled := hxy.settled hx.anchored hy hsettled
    have hrecoverable := hxy.recoverable hx.anchored.graft.grafted.tree.forest
      hy.graft.grafted.tree.forest hrecoverable
    exact hxy.reimports_of_places hserves hrest (importRecord_merged hbase hy hfound
      (hxy.imports ▸ himport) hread hhandle hlocate' hsettled hrecoverable)
  | @skipped _ _ _ record hfree hserves hskip hrest =>
    have hfree (header : RecordHeader) (body : Bytes)
        (hsplit : RecordHeader.split record = .ok (header, body)) :
        y.imports[header.handle]? = none := by
      rw [hkeyed.own hh hserves hsplit, hxy.imports, hfree]
    exact hxy.reimports_of_tree hfound hstart hserves hrest (importRecord_skipped hfree hskip)
  | @orphaned _ _ _ record header a hfree hserves hread hlocate hrest =>
    obtain ⟨body, -, hsplit, -⟩ := decodeRecord_eq_ok.mp hread
    obtain rfl := hkeyed.own hh hserves hsplit
    exact hxy.reimports_of_tree hfound hstart hserves hrest (importRecord_orphaned hfound
      (hxy.imports ▸ hfree) hread (hxy.locate?_eq_none hstart hlocate))
  | @idle _ _ _ record header a i n hfree hserves hread hlocate hn hdone hrest =>
    obtain ⟨body, -, hsplit, -⟩ := decodeRecord_eq_ok.mp hread
    obtain rfl := hkeyed.own hh hserves hsplit
    -- the node may have come back under another id, but not as another entity
    obtain ⟨j, hlocate', hentity, hhouses, -⟩ := hxy.locate? hx.anchored hy hstart hlocate
    obtain ⟨m, hm, hentity⟩ :=
      entity?_eq_some.mp (hentity.trans (entity?_eq_some.mpr ⟨n, hn, rfl⟩))
    have hdone (e : Entity) (he : e ∈ a.children) : ¬ y.Wants j m.entity a.kind e := by
      rw [Wants, hhouses, hxy.places.has_iff, hxy.repository, hentity]
      exact hdone e he
    exact hxy.reimports_of_places hserves hrest (importRecord_idle hbase hy hfound
      (hxy.imports ▸ hfree) hread hlocate' hm hdone)

/-- A cycle under way that fetches records again. -/
structure Refetching (host : RecordHandle → Except RequestError Bytes) (r₀ : Repository)
    (t₀ : Containment) (x y : Exchange) (c : Cycle) : Prop where
  anchored : Anchored r₀ t₀ y
  unmoved : Unmoved x y
  settings : y.settings = x.settings
  up : y.hostUp = true
  cycle : y.cycle = some c
  mode : c.mode = .listed
  before : c.before = x.repository
  start : c.parentFound = false → y.tree = x.tree
  proper : ∀ h ∈ c.pending, h ≠ RecordHandle.terminator
  repeats : Repeats host x c.parentFound c.pending

/-- Completing the cycle has nothing to tell. -/
theorem completed_unmoved (hx : Gathered host r₀ t₀ x) (hxy : Unmoved x y)
    (hsettings : y.settings = x.settings) (hbefore : c.before = x.repository) :
    y.completion? c = none ∧ Unmoved x y.completed := by
  have hrepository : y.completed.repository = x.repository := by
    change (applyFixups y.settings y.settings.fixups y.repository).1 = x.repository
    rw [hsettings, hxy.repository]
    exact hx.fixed
  refine ⟨?_, hrepository, hxy.imports, hxy.places⟩
  change (if (ChangeNotice.between c.before y.completed.repository _).isEmpty then none
    else some _) = none
  rw [hbefore, hrepository, if_pos (ChangeNotice.between_self _ _)]

namespace Refetching

theorem request (hy : Refetching host r₀ t₀ x y c) (hflight : c.inFlight = none)
    (hqueue : c.queue = h :: rest) : ∃ z d, y.nextRequest = (z, .ok (some ⟨c.id, h⟩)) ∧
      Refetching host r₀ t₀ x z d ∧ d.inFlight = some h ∧ d.queue = rest := by
  have hz := nextRequest_anchored hy.anchored
  rcases y.nextRequest_cases with heq | heq | ⟨c', h', rest', phase, hc', -, hqueue', heq⟩
  · simp [nextRequest, hy.cycle, hy.up, hflight, hqueue] at heq
  · simp [nextRequest, hy.cycle, hy.up, hflight, hqueue] at heq
  · obtain rfl := Option.some.inj (hy.cycle.symm.trans hc')
    obtain ⟨rfl, rfl⟩ := List.cons.inj (hqueue'.symm.trans hqueue)
    rw [heq] at hz ⊢
    have hpending : Cycle.pending { c with
        queue := rest', inFlight := some h', seen := c.seen.insert h' } = c.pending := by
      simp [Cycle.pending, hflight, hqueue]
    exact ⟨_, _, rfl, ⟨hz, ⟨hy.unmoved.repository, hy.unmoved.imports, hy.unmoved.places⟩,
      hy.settings, hy.up, rfl, hy.mode, hy.before, hy.start, hpending ▸ hy.proper,
      hpending ▸ hy.repeats⟩, rfl, rfl⟩

/-- The record that has been waited for leaves all as it is. -/
theorem receive (hbase : Planted r₀ t₀) (hkeyed : Keyed host) (hx : Gathered host r₀ t₀ x)
    (hy : Refetching host r₀ t₀ x y c) (hflight : c.inFlight = some h) :
    ∃ z outcome, y.receive c.id (host h) = (z, .ok outcome) ∧
      (outcome = .proceed ∧ (∃ d, Refetching host r₀ t₀ x z d ∧ d.inFlight = none ∧
        d.queue = c.queue ∧ c.queue ≠ []) ∨ outcome = .complete none ∧ Unmoved x z) := by
  have hpending : c.pending = h :: c.queue := by simp [Cycle.pending, hflight]
  have hrepeats := hy.repeats
  rw [hpending] at hrepeats
  have hanswered : Anchored r₀ t₀ (y.answered c) := hy.anchored.congr rfl rfl rfl rfl
  obtain ⟨record, w, found, ⟨next, hread⟩, himport, hxw, hfound, hstart, hrest⟩ :=
    importRecord_again hbase hkeyed hx hanswered
      ⟨hy.unmoved.repository, hy.unmoved.imports, hy.unmoved.places⟩ rfl hy.start
      (hy.proper h (by simp [hpending])) hrepeats
  obtain ⟨d, hd, -, hmode, hqueue, hflight', -⟩ :=
    importRecord_cycle (x := y.answered c) rfl record
  have haccounts := importRecord_accounts himport
  rw [himport] at hd
  obtain ⟨c', hc', -, hbefore, -⟩ := haccounts.cycle d hd
  obtain rfl := Option.some.inj hc'
  have hmode : d.mode = .listed := hmode.trans hy.mode
  have hbefore : d.before = x.repository := hbefore.trans hy.before
  have hsettings : w.settings = x.settings :=
    (congrArg (·.2.1) haccounts.fixed).trans hy.settings
  -- no handle after this one is followed in a fetch of listed handles
  have hfollow : d.follow next = d := if_neg (by simp [hmode])
  rw [hd] at hfound
  obtain rfl : d.parentFound = found := Option.some.inj hfound
  rw [receive_of_import hy.cycle hflight hread himport, advance_eq hd, if_neg (by simp [hmode]),
    hfollow]
  have hxw' : Unmoved x { w with cycle := some d } :=
    ⟨hxw.repository, hxw.imports, hxw.places⟩
  cases hempty : d.queue.isEmpty with
  | true =>
    obtain ⟨hnone, hunmoved⟩ := completed_unmoved (c := d) hx hxw' hsettings hbefore
    exact ⟨_, _, rfl, .inr ⟨by rw [hnone], hunmoved⟩⟩
  | false =>
    have hd' : d.pending = c.queue := by simp [Cycle.pending, hflight', hqueue]
    refine ⟨_, _, rfl, .inl ⟨rfl, d, ⟨?_, hxw', hsettings, ?_, rfl, hmode, hbefore, hstart, ?_, ?_⟩,
      hflight', hqueue, ?_⟩⟩
    · exact (importRecord_anchored hbase hanswered himport).congr rfl rfl rfl rfl
    · exact (congrArg (·.2.2) haccounts.fixed).trans hy.up
    · rw [hd']
      exact fun g hg => hy.proper g (by simp [hpending, hg])
    · rw [hd']
      exact hrest
    · rintro hnil
      simp [hqueue, hnil] at hempty

/-- The cycle can be carried on until it completes. -/
theorem completes (hbase : Planted r₀ t₀) (hkeyed : Keyed host) (hx : Gathered host r₀ t₀ x)
    (hy : Refetching host r₀ t₀ x y c) (hflight : c.inFlight = none) (hqueue : c.queue = h :: rest) :
    ∃ z, Completes host y z none := by
  induction rest generalizing y c h with
  | nil =>
    obtain ⟨w, d, hrequest, hw, hflight', hqueue'⟩ := hy.request hflight hqueue
    obtain ⟨z, outcome, hreceive, hgoes | ⟨rfl, -⟩⟩ := hw.receive hbase hkeyed hx hflight'
    · obtain ⟨-, -, -, -, -, hne⟩ := hgoes
      exact absurd hqueue' hne
    · exact ⟨z, .request hrequest (.complete (awaits hw hflight') hreceive)⟩
  | cons h' rest ih =>
    obtain ⟨w, d, hrequest, hw, hflight', hqueue'⟩ := hy.request hflight hqueue
    obtain ⟨z, outcome, hreceive, ⟨rfl, e, hz, hnone, hleft, -⟩ | ⟨rfl, -⟩⟩ :=
      hw.receive hbase hkeyed hx hflight'
    · obtain ⟨v, hv⟩ := ih hz hnone (hleft.trans hqueue')
      exact ⟨v, .request hrequest (.receive (awaits hw hflight') hreceive (by simp) hv)⟩
    · exact ⟨z, .request hrequest (.complete (awaits hw hflight') hreceive)⟩
where
  awaits {w : Exchange} {d : Cycle} {h : RecordHandle} (hw : Refetching host r₀ t₀ x w d)
      (hflight : d.inFlight = some h) (handle : RecordHandle)
      (hawaited : w.awaited? d.id = some handle) : host h = host handle := by
    obtain ⟨-, hflight'⟩ := (awaited?_of_cycle hw.cycle).mp hawaited
    rw [Option.some.inj (hflight.symm.trans hflight')]

end Refetching

/-- However the cycle is carried on, it has nothing to tell and leaves all as it is. -/
theorem Completes.unmoved (hbase : Planted r₀ t₀) (hkeyed : Keyed host)
    (hx : Gathered host r₀ t₀ x) {notice : Option ChangeNotice} (h : Completes host y z notice)
    (hy : Refetching host r₀ t₀ x y c) : notice = none ∧ Unmoved x z := by
  induction h using Completes.answers_induction generalizing c with
  | request _ _ hrequest ih =>
    cases hflight : c.inFlight with
    | some h =>
      obtain rfl := nextRequest_of_inFlight hy.cycle hflight hrequest
      exact ih hy
    | none =>
      cases hqueue : c.queue with
      | nil =>
        simp only [nextRequest, hy.cycle, hy.up, hflight, hqueue, if_true] at hrequest
        obtain ⟨rfl, -⟩ := Prod.mk.inj hrequest
        exact ih hy
      | cons h rest =>
        obtain ⟨w', d, hrequest', hw, -⟩ := hy.request hflight hqueue
        obtain ⟨rfl, -⟩ := Prod.mk.inj (hrequest.symm.trans hrequest')
        exact ih hw
  | drop _ _ ih =>
    exact ih ⟨hy.anchored.congr rfl rfl rfl rfl,
      ⟨hy.unmoved.repository, hy.unmoved.imports, hy.unmoved.places⟩, hy.settings, hy.up,
      hy.cycle, hy.mode, hy.before, hy.start, hy.proper, hy.repeats⟩
  | receive _ _ hawaited hreceive hgoes ih =>
    obtain ⟨rfl, hflight⟩ := (awaited?_of_cycle hy.cycle).mp hawaited
    obtain ⟨w, outcome, hreceive', ⟨-, e, hw, -⟩ | ⟨rfl, -⟩⟩ :=
      hy.receive hbase hkeyed hx hflight
    · obtain ⟨rfl, -⟩ := Prod.mk.inj (hreceive.symm.trans hreceive')
      exact ih hw
    · obtain ⟨-, heq⟩ := Prod.mk.inj (hreceive.symm.trans hreceive')
      exact absurd (Except.ok.inj heq) (hgoes none)
  | complete _ hawaited hreceive =>
    obtain ⟨rfl, hflight⟩ := (awaited?_of_cycle hy.cycle).mp hawaited
    obtain ⟨w, outcome, hreceive', ⟨rfl, -⟩ | ⟨rfl, hw⟩⟩ := hy.receive hbase hkeyed hx hflight
    · simp [hreceive] at hreceive'
    · obtain ⟨rfl, heq⟩ := Prod.mk.inj (hreceive.symm.trans hreceive')
      exact ⟨FetchOutcome.complete.inj (Except.ok.inj heq), hw⟩

/-- A fetch that begins a cycle. -/
theorem beginFetch_refetching (hx : Gathered host r₀ t₀ x) {handles : List RecordHandle}
    (hlisted : handles.filter (· ≠ RecordHandle.terminator) = h :: rest)
    (hrepeats : Repeats host x false (h :: rest)) :
    ∃ c, Refetching host r₀ t₀ x (x.beginFetch handles).1 c ∧ c.inFlight = none ∧
      c.queue = h :: rest := by
  have hproper (g : RecordHandle) (hg : g ∈ h :: rest) : g ≠ RecordHandle.terminator := by
    rw [← hlisted, List.mem_filter] at hg
    simpa using hg.2
  simp only [beginFetch, hx.cycle, hlisted]
  exact ⟨_, ⟨hx.anchored.congr rfl rfl rfl rfl, ⟨rfl, rfl, .refl _⟩, rfl, hx.up, rfl, rfl, rfl,
    fun _ => rfl, hproper, hrepeats⟩, rfl, rfl⟩

/-- Nothing completes unless a cycle runs. -/
theorem Completes.cycle_ne_none {notice : Option ChangeNotice} (h : Completes host x y notice) :
    x.cycle ≠ none := by
  induction h with
  | @request x w _ _ _ hrequest _ ih =>
    intro hnone
    simp only [nextRequest, hnone] at hrequest
    obtain ⟨rfl, -⟩ := Prod.mk.inj hrequest
    exact ih hnone
  | receive _ hreceive _ _ ih =>
    intro hnone
    simp only [Exchange.receive, hnone] at hreceive
    obtain ⟨rfl, -⟩ := Prod.mk.inj hreceive
    exact ih rfl
  | complete _ hreceive =>
    intro hnone
    simp [Exchange.receive, hnone] at hreceive

/-- Fetching records of the host that have not changed changes nothing, as long as each of them comes
back to its place. The fetch can be carried on until it completes, and however that is done it has
nothing to tell, and the records, the entities of the tree and their parents are what they were. -/
theorem refetch_unchanged {cfg : Configuration} {names : EntityNames} {r s : Repository}
    {t : Containment} {calls : List Call}
    (hranges : cfg.settings.ownRange.Apart cfg.settings.hostRange) (hseed : cfg.seed = .ok (r, t))
    (hequipped : r.Equipped s) (hrun : (start cfg.settings names s t).run? calls = some x)
    (hkeyed : Keyed host) {notice : Option ChangeNotice}
    (hcomplete : Completes host x.beginResync.1 y notice) {handles : List RecordHandle}
    (hrepeats : Repeats host y false (handles.filter (· ≠ RecordHandle.terminator))) :
    (handles.filter (· ≠ RecordHandle.terminator) ≠ [] →
      ∃ z, Completes host (y.beginFetch handles).1 z none) ∧
    ∀ z notice', Completes host (y.beginFetch handles).1 z notice' → notice' = none ∧
      z.repository = y.repository ∧ (∀ e, z.tree.Has e ↔ y.tree.Has e) ∧
      ∀ p e, z.tree.Contains p e ↔ y.tree.Contains p e := by
  obtain ⟨hplanted, -, hown, hhost⟩ := seed_planted hranges hseed
  obtain ⟨hplanted, hown', hhost'⟩ := hequipped.planted hplanted
  have hx := run?_anchored hplanted
    (start_anchored hplanted (hown'.trans hown).symm (hhost'.trans hhost).symm) hrun
  obtain ⟨c, hc⟩ : ∃ c, Gathering host s t x.beginResync.1 c := beginResync_gathering hplanted hx
  have hy := hcomplete.gathered hplanted hkeyed hc
  cases hlisted : handles.filter (· ≠ RecordHandle.terminator) with
  | nil =>
    refine ⟨fun hne => absurd rfl hne, fun z notice' hagain => ?_⟩
    have hnone : (y.beginFetch handles).1.cycle = none := by
      simp only [beginFetch, hy.cycle, hlisted]
    exact absurd hnone hagain.cycle_ne_none
  | cons h rest =>
    rw [hlisted] at hrepeats
    obtain ⟨d, hd, hflight, hqueue⟩ := beginFetch_refetching hy hlisted hrepeats
    refine ⟨fun _ => hd.completes hplanted hkeyed hy hflight hqueue, fun z notice' hagain => ?_⟩
    obtain ⟨hnotice, hunmoved⟩ := hagain.unmoved hplanted hkeyed hy hd
    have hz := hagain.anchored hplanted hd.anchored
    exact ⟨hnotice, hunmoved.repository, fun e => hunmoved.places.has_iff, fun p e =>
      hunmoved.places.contains_iff hy.anchored.graft.grafted.tree.forest
        hz.graft.grafted.tree.forest⟩

/-- A host with two records. The first one puts a card into the chassis of the standard
configuration. -/
def chassisHost (second : Bytes) (h : RecordHandle) : Except RequestError Bytes :=
  if h = RecordHandle.terminator ∨ h = 1 then .ok (cardListing 1 Association.physical 2)
  else if h = 2 then .ok (RecordResponse.single 0 second).encode
  else .error (.timeout ⟨9⟩ 1)

/-- The handle that a record carries. -/
def carried? (record : Bytes) : Option RecordHandle :=
  (RecordHeader.split record).toOption.map fun found => found.1.handle

theorem chassisHost_keyed {second : Bytes}
    (hread : readAnswer 2 (.ok (RecordResponse.single 0 second).encode) = .ok (second, 0))
    (hcarried : carried? second = some 2) : Keyed (chassisHost second) := by
  let card : Association := ⟨1, Association.physical, ⟨11521, 1, 0⟩, [⟨68, 1, 1⟩]⟩
  have hhandle {record : Bytes} {k : RecordHandle} {header : RecordHeader} {body : Bytes}
      (hcarried : carried? record = some k)
      (hsplit : RecordHeader.split record = .ok (header, body)) : header.handle = k := by
    simpa [carried?, hsplit, Except.toOption] using hcarried
  have hfirst {h : RecordHandle} (hh : h = RecordHandle.terminator ∨ h = 1) :
      readAnswer h (chassisHost second h) = .ok (encodeRecord 1 card, 2) := by
    rw [chassisHost, if_pos hh]
    rcases hh with rfl | rfl <;> decide +kernel
  have hcard : carried? (encodeRecord 1 card) = some 1 := by decide +kernel
  constructor
  · rintro h record header body hh ⟨next, hserves⟩ hsplit
    by_cases hone : h = 1
    · obtain ⟨rfl, -⟩ := Prod.mk.inj (Except.ok.inj ((hfirst (.inr hone)).symm.trans hserves))
      rw [hhandle hcard hsplit, hone]
    by_cases htwo : h = 2
    · subst htwo
      obtain ⟨rfl, -⟩ := Prod.mk.inj (Except.ok.inj (hread.symm.trans hserves))
      exact hhandle hcarried hsplit
    · simp [chassisHost, hh, hone, htwo, readAnswer, Except.mapError, bind, Except.bind] at hserves
  · rintro record header body ⟨next, hserves⟩ hsplit
    obtain ⟨rfl, -⟩ := Prod.mk.inj (Except.ok.inj ((hfirst (.inl rfl)).symm.trans hserves))
    rw [hhandle hcard hsplit]
    exact ⟨2, hfirst (.inr rfl)⟩

/-- The sensor and the card come back to their places. -/
theorem refetch_unchanged_card :
    let seeded := (Containment.empty.addRoot ⟨11521, 1, 0⟩ .own).1
    let x := start Configuration.standard.settings ⟨[]⟩ (.empty .localDefault .hostDefault) seeded
    let sensor : StateSensor := ⟨3, 1, ⟨1, 1, 1⟩, 0, false, []⟩
    let host := chassisHost (encodeRecord 2 sensor)
    ∃ y, Completes host x.beginResync.1 y (some ⟨[1, 0x1000000], [], []⟩) ∧
      (∃ z, Completes host (y.beginFetch [2, 1]).1 z none) ∧
      ∀ z notice, Completes host (y.beginFetch [2, 1]).1 z notice → notice = none ∧
        z.repository = y.repository ∧ (∀ e, z.tree.Has e ↔ y.tree.Has e) ∧
        ∀ p e, z.tree.Contains p e ↔ y.tree.Contains p e := by
  intro seeded x sensor host
  let chassis : Entity := ⟨11521, 1, 0⟩
  let card : Entity := ⟨68, 1, 1⟩
  let listing : Association := ⟨1, Association.physical, chassis, [card]⟩
  have hkeyed : Keyed host := chassisHost_keyed (by decide +kernel) (by decide +kernel)
  have hserves : Serves host 1 (encodeRecord 1 listing) := ⟨2, by decide +kernel⟩
  have hread := Association.decodeRecord_encodeRecordAs (a := listing) (by decide) 1 0
  obtain ⟨w, hw⟩ : ∃ y, y = (x.beginResync.1.nextRequest.1.receive 0 (host 0)).1 := ⟨_, rfl⟩
  obtain ⟨y, hy⟩ : ∃ y, y = (w.nextRequest.1.receive 0 (host 2)).1 := ⟨_, rfl⟩
  have hsteps : x.beginResync.1.nextRequest.2 = .ok (some ⟨0, 0⟩) ∧
      (x.beginResync.1.nextRequest.1.receive 0 (host 0)).2 = .ok .proceed ∧
      w.nextRequest.2 = .ok (some ⟨0, 2⟩) ∧
      (w.nextRequest.1.receive 0 (host 2)).2 = .ok (.complete (some ⟨[1, 0x1000000], [], []⟩)) := by
    rw [hw]
    decide +kernel
  obtain ⟨hask, hgo, hask', hdone⟩ := hsteps
  have hcomplete : Completes host x.beginResync.1 y (some ⟨[1, 0x1000000], [], []⟩) :=
    .answered hask hgo (hw ▸ hy ▸ .last hask' hdone)
  have himports : y.imports[(1 : RecordHandle)]? = some (.merged chassis [card] 1) ∧
      y.imports[(2 : RecordHandle)]? = some (.stored 0x1000000) := by
    rw [hy, hw]
    decide +kernel
  have htree : y.tree.locate? false chassis = some 0 ∧
      y.tree.node? 0 = some ⟨chassis, .own, none, [1]⟩ ∧
      ∀ entry ∈ y.tree.nodes.toList, entry.2.parent ≠ some 1 ∧
        (entry.2.entity = card → entry.1 = 1) := by
    rw [hy, hw]
    decide +kernel
  have hrepository : (y.repository.erase 0x1000000).slot? .host 2 = some 0x1000000 ∧
      y.repository.ownRange.contains 1 = true ∧ y.repository.get? 1 = some (.listing 1 listing) ∧
      (((y.repository.erase 1).associate chassis Association.physical card).toOption.map fun found =>
        found.2) = some (1, true) ∧
      ∀ entry ∈ y.repository.toList, y.repository.ownRange.contains entry.1 → entry.1 = 1 := by
    rw [hy, hw]
    decide +kernel
  obtain ⟨hlocate, hn, hnodes⟩ := htree
  obtain ⟨hslot, hin, hget, hagain, hsole⟩ := hrepository
  obtain ⟨⟨s, _⟩, hs, rfl⟩ := Option.map_eq_some_iff.mp hagain
  have hagain : (y.repository.erase 1).associate chassis Association.physical card =
      .ok (s, 1, true) := by
    cases he : (y.repository.erase 1).associate chassis Association.physical card with
    | error e => simp [he, Except.toOption] at hs
    | ok found => simpa [he, Except.toOption] using hs
  have hheld : y.repository.Holds 1 listing :=
    ⟨hin, ⟨by simp [listing], by decide, by simp [listing]⟩, hget⟩
  have hrecoverable : y.Recoverable chassis Association.physical [card] 1 := by
    refine ⟨fun c hc _ d => ?_, fun c hc _ j p => ?_, .alone hheld hagain⟩
    · obtain rfl := List.mem_singleton.mp hc
      rintro ⟨id, n, i, m, hn, hparent, hm, he, -⟩
      obtain rfl : i = 1 := (hnodes _ (Containment.mem_toList.mpr hm)).2 he
      exact (hnodes _ (Containment.mem_toList.mpr hn)).1 hparent
    · rintro ⟨b, hb, -⟩
      exact hsole _ (Repository.mem_toList.mpr hb.get) hb.own
  have hrepeats : Repeats host y false ([2, 1].filter (· ≠ RecordHandle.terminator)) :=
    .stored himports.2 hslot (.merged himports.1 hserves hread hlocate hn hrecoverable .nil)
  have hseed : Configuration.standard.seed = .ok (.empty .localDefault .hostDefault, seeded) := rfl
  have hrun : x.run? [] = some x := rfl
  obtain ⟨hcompletes, hunchanged⟩ := refetch_unchanged ⟨by decide, by decide, by decide⟩ hseed .refl
    hrun hkeyed hcomplete hrepeats
  exact ⟨y, hcomplete, hcompletes (by decide), hunchanged⟩

/-- A fetch of the card takes the processor on it out of the tree. -/
theorem refetch_loses_processor :
    let seeded := (Containment.empty.addRoot ⟨11521, 1, 0⟩ .own).1
    let x := start Configuration.standard.settings ⟨[]⟩ (.empty .localDefault .hostDefault) seeded
    let processor : Association := ⟨2, Association.physical, ⟨68, 1, 1⟩, [⟨135, 1, 2⟩]⟩
    let host := chassisHost (encodeRecord 2 processor)
    Configuration.standard.seed = .ok (.empty .localDefault .hostDefault, seeded) ∧ Keyed host ∧
    ∃ y z, Completes host x.beginResync.1 y (some ⟨[1, 2], [], []⟩) ∧
      Completes host (y.beginFetch [1]).1 z (some ⟨[], [], [2]⟩) ∧
      y.tree.Has ⟨135, 1, 2⟩ ∧ ¬ z.tree.Has ⟨135, 1, 2⟩ := by
  intro seeded x processor host
  refine ⟨rfl, chassisHost_keyed (by decide +kernel) (by decide +kernel), ?_⟩
  obtain ⟨w, hw⟩ : ∃ y, y = (x.beginResync.1.nextRequest.1.receive 0 (host 0)).1 := ⟨_, rfl⟩
  obtain ⟨y, hy⟩ : ∃ y, y = (w.nextRequest.1.receive 0 (host 2)).1 := ⟨_, rfl⟩
  obtain ⟨z, hz⟩ : ∃ z, z = ((y.beginFetch [1]).1.nextRequest.1.receive 1 (host 1)).1 := ⟨_, rfl⟩
  have hsteps : x.beginResync.1.nextRequest.2 = .ok (some ⟨0, 0⟩) ∧
      (x.beginResync.1.nextRequest.1.receive 0 (host 0)).2 = .ok .proceed ∧
      w.nextRequest.2 = .ok (some ⟨0, 2⟩) ∧
      (w.nextRequest.1.receive 0 (host 2)).2 = .ok (.complete (some ⟨[1, 2], [], []⟩)) ∧
      (y.beginFetch [1]).1.nextRequest.2 = .ok (some ⟨1, 1⟩) ∧
      ((y.beginFetch [1]).1.nextRequest.1.receive 1 (host 1)).2 =
        .ok (.complete (some ⟨[], [], [2]⟩)) ∧
      y.tree.findExact? ⟨135, 1, 2⟩ = some 2 ∧ z.tree.findExact? ⟨135, 1, 2⟩ = none := by
    rw [hz, hy, hw]
    decide +kernel
  obtain ⟨hask, hgo, hask', hdone, hagain, hlast, hhas, hgone⟩ := hsteps
  refine ⟨y, z, .answered hask hgo (hw ▸ hy ▸ .last hask' hdone), hz ▸ .last hagain hlast, ?_,
    findExact?_eq_none_iff.mp hgone⟩
  exact ⟨2, findExact?_eq_some hhas⟩

end DescriptorExchange.Exchange
