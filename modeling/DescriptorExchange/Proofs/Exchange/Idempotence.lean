import DescriptorExchange.Proofs.Exchange.Abreast
import DescriptorExchange.Proofs.Exchange.Accounts
import DescriptorExchange.Proofs.Exchange.Baseline

/-!
A resync against a host that has not changed. It begins with the records the last one began with,
except that containers have been copied into effecters, and so asks for the same and imports the
same at the same handles. The copying then finds nothing left to do.
-/
namespace DescriptorExchange

open Repository Containment

/-- State effecter records have been stored among the controller's own. -/
inductive Repository.Equipped (r : Repository) : Repository → Prop
  | refl : Equipped r r
  | effecter {s s' : Repository} {bytes body : Bytes} {header : RecordHeader} {k : RecordHandle}
      (h : Equipped r s) (hsplit : RecordHeader.split bytes = .ok (header, body))
      (htype : header.type = .stateEffecter) (hinsert : s.insert .own bytes = .ok (s', k)) :
        Equipped r s'

variable {r s : Repository} {t : Containment} {k : RecordHandle} {a : Association}

theorem Repository.holds_put_of_free {record : Record} (hfree : r.get? k = none)
    (htype : record.type ≠ .entityAssociation) {j : RecordHandle} :
    (r.put k record).Holds j a ↔ r.Holds j a := by
  by_cases hj : j = k
  · subst hj
    constructor
    · intro h
      have hget := h.get
      rw [get?_put_self] at hget
      exact absurd (congrArg Record.type (Option.some.inj hget)) htype
    · intro h
      simp [h.get] at hfree
  · have hget : (r.put k record).get? j = r.get? j := get?_put_ne _ _ hj
    exact ⟨fun h => h.congr rfl hget.symm, fun h => h.congr rfl hget⟩

/-- Another record of the controller's own, which lists nothing. -/
theorem Planted.put {record : Record} (h : Planted r t) (hin : r.ownRange.contains k = true)
    (hfree : r.get? k = none) (htype : record.type ≠ .entityAssociation) :
    Planted (r.put k record) t := by
  have hholds {j : RecordHandle} {a : Association} : (r.put k record).Holds j a ↔ r.Holds j a :=
    holds_put_of_free hfree htype
  have htidy : (r.put k record).Tidy := by
    intro j old hget hin' htype'
    rw [get?_put] at hget
    split_ifs at hget with hj
    · exact absurd (Option.some.inj hget ▸ htype') htype
    · exact (h.tidy j old hget hin' htype').imp fun _ => hholds.mpr
  refine ⟨h.ranges, htidy, fun {j old} hget => ?_, h.forest, h.ownNodes, fun p c => ?_⟩
  · rw [get?_put] at hget
    split_ifs at hget with hj
    · exact hj ▸ hin
    · exact h.own hget
  · rw [← h.mirror, htidy.lists_iff, h.tidy.lists_iff]
    simp only [Names, hholds]

theorem Repository.Equipped.planted (hrs : Equipped r s) (h : Planted r t) :
    Planted s t ∧ s.ownRange = r.ownRange ∧ s.hostRange = r.hostRange := by
  induction hrs with
  | refl => exact ⟨h, rfl, rfl⟩
  | effecter _ hsplit htype hinsert ih =>
    obtain ⟨hplanted, hown, hhost⟩ := ih
    obtain ⟨header, body, stored, hsplit', hslot, -, rfl⟩ := insert_eq_ok.mp hinsert
    obtain ⟨rfl, -⟩ := Prod.mk.inj (Except.ok.inj (hsplit.symm.trans hsplit'))
    obtain ⟨hin, hfree⟩ := slot?_spec .own hplanted.ranges.ownProper hslot
    refine ⟨hplanted.put hin hfree ?_, hown, hhost⟩
    simp [htype]

theorem Cycle.Fresh.matches {c d : Cycle} (hc : c.Fresh) (hd : d.Fresh) (hbefore : d.before = r) :
    c.Matches r d where
  mode := hd.mode.trans hc.mode.symm
  queue := hd.queue.trans hc.queue.symm
  inFlight := hd.inFlight.trans hc.inFlight.symm
  seen := hd.seen.trans hc.seen.symm
  parentFound := hd.parentFound.trans hc.parentFound.symm
  before := hbefore

/-- Under the handle is a record other than an association record. -/
def Repository.Unlisted (r : Repository) (k : RecordHandle) : Prop :=
  ∃ label, r.label? k = some label ∧ label.1 ≠ .entityAssociation

/-- Nothing has changed between a repository and itself. -/
theorem ChangeNotice.between_self (r : Repository) (handles : List RecordHandle) :
    (ChangeNotice.between r r handles).isEmpty = true := by
  have hsame (h : RecordHandle) : r.difference r h = .same := by
    unfold Repository.difference
    cases r.get? h <;> simp
  simp [ChangeNotice.between, ChangeNotice.isEmpty, hsame]

namespace Exchange

variable {host : RecordHandle → Except RequestError Bytes} {x y z : Exchange}
  {notice : Option ChangeNotice}
  {r₀ : Repository} {t₀ : Containment}

theorem nextRequest_fixed {asked : Option FetchRequest} (h : x.nextRequest = (y, .ok asked)) :
    y.fixed = x.fixed := by
  unfold nextRequest at h
  split at h
  · obtain ⟨rfl, -⟩ := Prod.mk.inj h
    rfl
  · split_ifs at h
    · split at h <;> obtain ⟨rfl, -⟩ := Prod.mk.inj h <;> rfl
    · simp at h

theorem receive_fixed {cycle : CycleId} {answer : Except RequestError Bytes}
    {outcome : FetchOutcome}
    (h : x.receive cycle answer = (y, .ok outcome)) : y.fixed = x.fixed := by
  rcases receive_cases h with ⟨rfl, -⟩ | ⟨c, handle, -, -, -, ⟨e, -, -, he⟩ |
    ⟨record, next, -, ⟨_, e, -, -, he⟩ | ⟨z, himport, hadvance⟩⟩⟩
  · rfl
  · simp at he
  · simp at he
  · have hz : z.fixed = x.fixed := (importRecord_accounts himport).fixed
    rcases advance_cases hadvance with ⟨-, rfl, -⟩ | ⟨d, -, ⟨-, he⟩ | ⟨rfl, -⟩ | ⟨rfl, -⟩⟩
    · exact hz
    · simp at he
    · exact hz
    · exact hz

namespace Completes

theorem fixed (h : Completes host x y notice) : y.fixed = x.fixed := by
  induction h with
  | request hrequest _ ih => exact ih.trans (nextRequest_fixed hrequest)
  | receive _ hreceive _ _ ih => exact ih.trans (receive_fixed hreceive)
  | complete _ hreceive => exact receive_fixed hreceive

theorem anchored (hbase : Planted r₀ t₀) (h : Completes host x y notice) (hx : Anchored r₀ t₀ x) :
    Anchored r₀ t₀ y := by
  induction h with
  | request hrequest _ ih =>
    have hw := nextRequest_anchored hx
    rw [hrequest] at hw
    exact ih hw
  | receive _ hreceive _ _ ih => exact ih (receive_anchored hbase hx hreceive (by simp))
  | complete _ hreceive => exact receive_anchored hbase hx hreceive (by simp)

end Completes

section again

variable (hx : Planted x.repository x.tree) (hy : Anchored x.repository x.tree y)
include hx hy

/-- The records of a second resync are those of the first, but for what has been written into
records other than association records. -/
theorem beginResync_overlaid :
    Overlaid x.repository.Unlisted y.repository x.repository y.beginResync.1.repository := by
  have hrestored := beginResync_restored hx hy
  have hext := (beginResync_anchored hx hy).graft.grafted.repository
  have hsame {k : RecordHandle} (hk : ¬ x.repository.Unlisted k) :
      y.beginResync.1.repository.get? k = x.repository.get? k :=
    hrestored.get?_eq hx hext fun label hlabel => by
      by_contra hne
      exact hk ⟨label, hlabel, hne⟩
  have hown {k : RecordHandle} {label : RecordType × Origin}
      (hlabel : x.repository.label? k = some label) :
      x.repository.ownRange.contains k = true := by
    obtain ⟨record, hget, -⟩ := label?_eq_some.mp hlabel
    exact hx.own hget
  have hlabel (k : RecordHandle) :
      y.beginResync.1.repository.label? k = x.repository.label? k := by
    by_cases hk : x.repository.Unlisted k
    · obtain ⟨label, hlabel, hne⟩ := hk
      rw [hlabel, hext.others (hown hlabel) hne, hlabel]
    · rw [label?, hsame hk, label?]
  refine ⟨⟨hext.ownRange, hext.hostRange, hlabel, fun {k record} htype => ?_⟩, hsame,
    fun {k} hk => ?_, id, fun origin => ?_⟩
  · by_cases hk : x.repository.Unlisted k
    · obtain ⟨label, hlabel', hne⟩ := hk
      constructor
      · intro hget
        have heq := (label?_of_get? hget).symm.trans ((hlabel k).trans hlabel')
        exact absurd (Option.some.inj heq ▸ htype) hne
      · intro hget
        have heq := (label?_of_get? hget).symm.trans hlabel'
        exact absurd (Option.some.inj heq ▸ htype) hne
    · rw [hsame hk]
  · obtain ⟨label, hlabel', hne⟩ := hk
    have hin := hown hlabel'
    obtain ⟨record, hget, htype, -⟩ :=
      label?_eq_some.mp ((hy.graft.grafted.repository.others hin hne).mpr hlabel')
    rw [hget, get?_beginResync hx hy hin (htype ▸ hne), hget]
  · cases origin with
    | own => exact hx.ranges.ownProper
    | host => exact hx.ranges.hostProper

/-- A second resync begins abreast of where the first one began. -/
theorem beginResync_abreast (himports : x.imports = ∅) (htermini : x.termini = ∅)
    (hfixed : y.fixed = x.fixed) (hcycle : ∃ c, x.cycle = some c ∧ c.Fresh) :
    ∃ σ, Abreast x.repository.Unlisted y.repository σ x y.beginResync.1 := by
  have hrestored := beginResync_restored hx hy
  obtain ⟨hsettings, hhostUp⟩ := beginResync_settings hx hy
  obtain ⟨d, hd, hfresh', hbefore⟩ := beginResync_cycle hx hy
  obtain ⟨c, hc, hfresh⟩ := hcycle
  obtain ⟨σ, htree⟩ :=
    hx.forest.alongside hrestored.nodes (beginResync_anchored hx hy).graft.grafted.tree.issued
  refine ⟨σ, hsettings.trans (congrArg (·.2.1) hfixed), hhostUp.trans (congrArg (·.2.2) hfixed),
    hrestored.imports.trans himports.symm, hrestored.termini.trans htermini.symm,
    beginResync_overlaid hx hy, htree, ⟨c, d, hc, hd, hfresh.matches hfresh' hbefore⟩,
    fun {h i} hi => ?_⟩
  simp [himports] at hi

end again

theorem completed_sensors (x : Exchange) : x.completed.sensors =
    SensorIndex.build
      (((x.completed.repository.ofType .stateSensor).filter fun entry =>
        x.settings.hostRange.contains entry.1).map fun entry => entry.2.bytes)
      x.termini x.settings.hostTid := rfl

/-- What completes abreast of a resync that ended in the repository it began with ends there too. -/
theorem completed_settled {u v : Exchange} {d : Cycle} {σ : NodeId → NodeId}
    (hfinished : Anchored r₀ t₀ u.completed)
    (huv : Abreast r₀.Unlisted u.completed.repository σ u v)
    (hbefore : d.before = u.completed.repository) :
    v.completion? d = none ∧ v.completed.repository = u.completed.repository ∧
      v.completed.sensors = u.completed.sensors := by
  have halike : Alike u.repository u.completed.repository :=
    applyFixups_alike u.settings u.settings.fixups u.repository
  have hext := hfinished.graft.grafted.repository
  have hrepository : v.repository = u.completed.repository := by
    refine ext_get? (huv.repository.rewritten.ownRange.trans halike.rewritten.ownRange.symm)
      (huv.repository.rewritten.hostRange.trans halike.rewritten.hostRange.symm) fun k => ?_
    by_cases hk : r₀.Unlisted k
    · exact huv.repository.inside hk
    · rw [huv.repository.outside hk]
      refine (get?_applyFixups u.settings u.settings.fixups ?_).symm
      cases hin : u.repository.ownRange.contains k with
      | false => exact .inl rfl
      | true =>
        -- an effecter of the controller's own has been there from the start
        refine .inr fun record hget htype => hk ⟨(record.type, record.origin), ?_, ?_⟩
        · rw [← hext.others (by rwa [← hext.ownRange, halike.rewritten.ownRange]),
            halike.rewritten.label]
          · exact label?_of_get? hget
          · simp [htype]
        · simp [htype]
  have hsettled : v.completed.repository = u.completed.repository := by
    change (applyFixups v.settings v.settings.fixups v.repository).1 = _
    rw [hrepository, huv.settings]
    exact applyFixups_idem u.settings u.settings.fixups u.repository
  refine ⟨?_, hsettled, ?_⟩
  · change (if (ChangeNotice.between d.before v.completed.repository _).isEmpty then none
      else some _) = none
    rw [hbefore, hsettled, if_pos (ChangeNotice.between_self _ _)]
  · rw [completed_sensors, completed_sensors, hsettled, huv.settings, huv.termini]

/-- A resync that begins with the controller's own records and topology and completes would complete
once more, and in no other way. -/
theorem Completes.again (hx : Planted x.repository x.tree) (himports : x.imports = ∅)
    (htermini : x.termini = ∅) (hown : x.settings.ownRange = x.repository.ownRange)
    (hhost : x.settings.hostRange = x.repository.hostRange)
    (hcycle : ∃ c, x.cycle = some c ∧ c.Fresh)
    (hcomplete : Completes host x y notice) :
    (∃ z notice', Completes host y.beginResync.1 z notice') ∧
      ∀ z notice', Completes host y.beginResync.1 z notice' → notice' = none ∧
        z.repository = y.repository ∧ z.imports = y.imports ∧ z.termini = y.termini ∧
        z.sensors = y.sensors ∧ y.tree.SameUpToIds z.tree := by
  have hy := hcomplete.anchored hx (anchored_of_planted hx himports hown hhost)
  obtain ⟨σ, habreast⟩ := beginResync_abreast hx hy himports htermini hcomplete.fixed hcycle
  refine ⟨hcomplete.abreast habreast, fun z notice' hagain => ?_⟩
  obtain ⟨u, v, c, d, huv, hcd, rfl, rfl, rfl⟩ := hcomplete.meets habreast hagain
  obtain ⟨hnotice, hrepository, hsensors⟩ := completed_settled hy huv hcd.before
  exact ⟨hnotice, hrepository, huv.imports, huv.termini, hsensors, σ, huv.tree.renamed⟩

/-- A resync is idempotent: once it has completed against a host, another resync against the same
host completes. However its steps are ordered, it has nothing to tell and changes nothing but the
ids of nodes. -/
theorem resync_idempotent {c : Configuration} {names : EntityNames} {r s : Repository}
    {t : Containment}
    {calls : List Call} (hranges : c.settings.ownRange.Apart c.settings.hostRange)
    (hseed : c.seed = .ok (r, t)) (hequipped : r.Equipped s)
    (hrun : (start c.settings names s t).run? calls = some x)
    (hcomplete : Completes host x.beginResync.1 y notice) :
    (∃ z, Completes host y.beginResync.1 z none) ∧
      ∀ z notice', Completes host y.beginResync.1 z notice' → notice' = none ∧
        z.repository = y.repository ∧ z.imports = y.imports ∧ z.termini = y.termini ∧
        z.sensors = y.sensors ∧ y.tree.SameUpToIds z.tree := by
  obtain ⟨hplanted, -, hown, hhost⟩ := seed_planted hranges hseed
  obtain ⟨hplanted, hown', hhost'⟩ := hequipped.planted hplanted
  have hx := run?_anchored hplanted
    (start_anchored hplanted (hown'.trans hown).symm (hhost'.trans hhost).symm) hrun
  have hbegun := beginResync_anchored hplanted hx
  have hrestored := beginResync_restored hplanted hx
  obtain ⟨d, hd, hfresh, -⟩ := beginResync_cycle hplanted hx
  have hown : x.beginResync.1.settings.ownRange = x.beginResync.1.repository.ownRange :=
    hbegun.graft.range.trans hbegun.graft.grafted.repository.ownRange.symm
  have hhost : x.beginResync.1.settings.hostRange = x.beginResync.1.repository.hostRange :=
    hbegun.hostRange.trans hbegun.graft.grafted.repository.hostRange.symm
  obtain ⟨⟨z, notice', hagain⟩, hsettled⟩ :=
    hcomplete.again (hrestored.planted hplanted hbegun) hrestored.imports hrestored.termini
      hown hhost ⟨d, hd, hfresh⟩
  obtain ⟨rfl, -⟩ := hsettled z notice' hagain
  exact ⟨⟨z, hagain⟩, hsettled⟩

/-- The container of the card is copied into an effecter once. -/
theorem resync_idempotent_card :
    let chassis : Entity := ⟨11521, 1, 0⟩
    let seeded := (Containment.empty.addRoot chassis .own).1
    let settings := { ExchangeSettings.standard with fixups := [⟨7, 68, 1⟩] }
    let effecter := encodeRecord 1 (⟨0, 7, ⟨68, 1, 0⟩, 0, 0, false, []⟩ : StateEffecter)
    let host (_ : RecordHandle) : Except RequestError Bytes := .ok cardAnswer
    ∃ s, (Repository.empty .localDefault .hostDefault).insert .own effecter = .ok (s, 1) ∧
      ∃ y, Completes host (start settings ⟨[]⟩ s seeded).beginResync.1 y (some ⟨[2], [1], []⟩) ∧
        (∃ z, Completes host y.beginResync.1 z none) ∧
        ∀ z notice', Completes host y.beginResync.1 z notice' → notice' = none ∧
          z.repository = y.repository ∧ z.imports = y.imports ∧ z.termini = y.termini ∧
          z.sensors = y.sensors ∧ y.tree.SameUpToIds z.tree := by
  intro chassis seeded settings effecter host
  have hruns : ((Repository.empty .localDefault .hostDefault).insert .own effecter).toOption.map
      (fun made =>
      let begun := (start settings ⟨[]⟩ made.1 seeded).beginResync.1
      (made.2, begun.nextRequest.2, (begun.nextRequest.1.receive 0 (.ok cardAnswer)).2)) =
        some (1, .ok (some ⟨0, 0⟩), .ok (.complete (some ⟨[2], [1], []⟩))) := by
    decide +kernel
  obtain ⟨⟨s, k⟩, hmade, hresults⟩ := Option.map_eq_some_iff.mp hruns
  simp only [Prod.mk.injEq] at hresults
  obtain ⟨rfl, hasked, hdone⟩ := hresults
  have hinsert :
      (Repository.empty .localDefault .hostDefault).insert .own effecter = .ok (s, 1) := by
    cases hi : (Repository.empty .localDefault .hostDefault).insert .own effecter with
    | error e => simp [hi, Except.toOption] at hmade
    | ok made => simpa [hi, Except.toOption] using hmade
  have hcomplete :
      Completes host (start settings ⟨[]⟩ s seeded).beginResync.1 _ (some ⟨[2], [1], []⟩) :=
    .request (Prod.ext rfl hasked) (.complete (fun _ _ => rfl) (Prod.ext rfl hdone))
  have hrun : (start settings ⟨[]⟩ s seeded).run? [] = some (start settings ⟨[]⟩ s seeded) := rfl
  refine ⟨s, hinsert, _, hcomplete, ?_⟩
  exact resync_idempotent (c := { Configuration.standard with settings := settings })
    ⟨by decide, by decide, by decide⟩ rfl (.effecter .refl rfl rfl hinsert) hrun hcomplete

end Exchange
end DescriptorExchange
