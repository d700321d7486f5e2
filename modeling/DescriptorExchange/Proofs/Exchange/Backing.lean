import DescriptorExchange.Proofs.Exchange.Gathering
import DescriptorExchange.Proofs.Exchange.Undoing

/-!
What stands behind the import of an association: a record of the controller's own that lists the
children under their parent, and the places of the children in the tree. A merge leaves its import
backed, and whatever else is merged or stored afterwards keeps it so. Undoing another import does not
if that one has contributed a child to the same record, or if the node of a child goes with it; and
it does in all other cases.
-/
namespace DescriptorExchange.Exchange

open Repository Containment

variable {x y : Exchange} {r₀ r : Repository} {t₀ t : Containment} {h j k : RecordHandle}
  {parent : Entity} {children : List Entity} {record : Bytes} {call : Call}

/-- A record of the controller's own lists the children under the parent, and that is where they are
in the tree. -/
structure Backs (x : Exchange) (k : RecordHandle) (parent : Entity) (children : List Entity) :
    Prop where
  nonempty : children ≠ []
  record : ∃ a, x.repository.Holds k a ∧ a.container = parent ∧ ∀ c ∈ children, c ∈ a.children
  placed : ∀ c ∈ children, x.tree.Contains parent c

/-- Undoing the import of a record takes one of the children out of the record that lists them, or
its node out of the tree. -/
def Takes (x : Exchange) (j k : RecordHandle) (children : List Entity) : Prop :=
  ∃ c ∈ children, (c, k) ∈ x.contribution j ∨ x.tree.Loses ((x.contribution j).map Prod.fst) c

theorem takes_of_none (hnone : x.contribution j = []) : ¬ x.Takes j k children := by
  rintro ⟨c, -, hc⟩
  simp [hnone, Loses, Uprooted] at hc

/-- The tree has what the record lists. -/
theorem backs_iff (hx : Anchored r₀ t₀ x) : x.Backs k parent children ↔
    children ≠ [] ∧ ∀ c ∈ children, x.repository.Names k parent c := by
  constructor
  · rintro ⟨hne, ⟨a, ha, hparent, hall⟩, -⟩
    exact ⟨hne, fun c hc => ⟨a, ha, hparent, hall c hc⟩⟩
  · rintro ⟨hne, hnames⟩
    obtain ⟨c, hc⟩ := List.exists_mem_of_ne_nil _ hne
    obtain ⟨a, ha, hparent, -⟩ := hnames c hc
    refine ⟨hne, ⟨a, ha, hparent, fun d hd => ?_⟩, fun d hd => ?_⟩
    · obtain ⟨b, hb, -, hmem⟩ := hnames d hd
      exact ha.inj hb ▸ hmem
    · exact (hx.graft.grafted.mirror parent d).mp
        (hx.graft.grafted.repository.tidy.lists_iff.mpr ⟨k, hnames d hd⟩)

/-- Only the repository and the tree matter. -/
theorem Backs.congr (hbacks : x.Backs k parent children) (hrepository : y.repository = x.repository)
    (htree : y.tree = x.tree) : y.Backs k parent children :=
  ⟨hbacks.nonempty, hrepository ▸ hbacks.record, htree ▸ hbacks.placed⟩

theorem Backs.mono (hx : Anchored r₀ t₀ x) (hy : Anchored r₀ t₀ y)
    (hnames : ∀ p c, x.repository.Names k p c → y.repository.Names k p c)
    (hbacks : x.Backs k parent children) : y.Backs k parent children := by
  obtain ⟨hne, hall⟩ := (backs_iff hx).mp hbacks
  exact (backs_iff hy).mpr ⟨hne, fun c hc => hnames parent c (hall c hc)⟩

/-- Where listings are kept, an old import that is not backed was not backed before. -/
theorem backs_of_kept (hx : Anchored r₀ t₀ x) (hy : Anchored r₀ t₀ y)
    (hnames : ∀ p c, x.repository.Names k p c → y.repository.Names k p c)
    (hold : x.imports[h]? = some (.merged parent children k)) : y.Backs k parent children ∨
      x.imports[h]? = some (.merged parent children k) ∧ ¬ x.Backs k parent children := by
  by_cases hbacks : x.Backs k parent children
  · exact .inl (hbacks.mono hx hy hnames)
  · exact .inr ⟨hold, hbacks⟩

theorem Furthers.names {range : HandleRange} (hxy : Furthers range x y) {p c : Entity}
    (hnames : x.repository.Names k p c) : y.repository.Names k p c := by
  obtain ⟨a, ha, hparent, hmem⟩ := hnames
  obtain ⟨more, hmore⟩ := hxy.repository.longer ha
  exact ⟨_, hmore, hparent, List.mem_append_left _ hmem⟩

/-- An association that has just been merged is backed. -/
theorem Settled.backs {i : NodeId} {a : Association} (hx : Anchored r₀ t₀ x)
    (hs : x.Settled i a parent children k) : x.Backs k parent children := by
  refine (backs_iff hx).mpr ⟨hs.nonempty, fun c hc => ?_⟩
  have henters : x.repository.Enters parent a.kind c := by
    have hdone := hs.done c (hs.firsts.mem.mp hc).1
    by_contra hout
    exact hdone ⟨.inl (hs.housed c hc), hout⟩
  obtain ⟨j, b, hfind, hb, hmem⟩ := henters
  obtain rfl : j = k := Option.some.inj (hfind.symm.trans hs.record)
  obtain ⟨⟨b', hb', hparent, -⟩, -⟩ :=
    hx.graft.grafted.repository.tidy.findAssociation?_eq_some.mp hfind
  exact ⟨b, hb, hb.inj hb' ▸ hparent, hmem⟩

namespace Forgets

variable (hbase : Planted r₀ t₀) (hx : Anchored r₀ t₀ x) (hxy : Forgets j x y)
include hbase hx hxy

/-- An import is backed after another one has been undone if it was before and nothing of it is
taken. -/
theorem backs_iff (hy : Anchored r₀ t₀ y) : y.Backs k parent children ↔
    x.Backs k parent children ∧ ¬ x.Takes j k children := by
  rw [Exchange.backs_iff hx, Exchange.backs_iff hy, and_assoc]
  refine and_congr_right fun _ => ?_
  simp only [hxy.names, Takes, not_exists, not_and, not_or]
  constructor
  · exact fun hall => ⟨fun c hc => (hall c hc).1, fun c hc => ⟨(hall c hc).2.1, (hall c hc).2.2.2⟩⟩
  · rintro ⟨hnames, hkept⟩ c hc
    -- the parent cannot go, for the child would go with it
    have hin : x.tree.Contains parent c := (hx.graft.grafted.mirror parent c).mp
      (hx.graft.grafted.repository.tidy.lists_iff.mpr ⟨k, hnames c hc⟩)
    refine ⟨hnames c hc, (hkept c hc).1, fun hp => ?_, (hkept c hc).2⟩
    exact (hkept c hc).2 (hx.graft.grafted.tree.loses_child hbase.ownNodes hin hp)

omit hbase hx in
theorem contribution (i : RecordHandle) :
    y.contribution i = if i = j then [] else x.contribution i := by
  unfold Exchange.contribution
  rw [hxy.imports]
  split_ifs <;> rfl

omit hbase in
/-- What undoing yet another import takes does not depend on the one that has been undone. -/
theorem takes_iff (hkept : ¬ x.Takes j k children) (i : RecordHandle) :
    y.Takes i k children ↔ x.Takes i k children := by
  by_cases hi : i = j
  · subst hi
    have hnone : y.contribution i = [] := by rw [hxy.contribution, if_pos rfl]
    exact iff_of_false (takes_of_none hnone) hkept
  · have hsame : y.contribution i = x.contribution i := by
      rw [hxy.contribution, if_neg hi]
    unfold Takes
    refine exists_congr fun c => and_congr_right fun hc => ?_
    rw [hsame]
    refine or_congr_right (hxy.tree.loses_iff hx.graft.grafted.tree.forest fun hlost => ?_)
    exact hkept ⟨c, hc, .inr hlost⟩

end Forgets

/-- The records whose imports a call undoes: those that are withdrawn, and one that is imported
again. -/
def undone (x : Exchange) : Call → List RecordHandle
  | .forget handles => handles
  | .receive cycle answer => (x.brought? cycle answer).toList
  | _ => []

section calls

variable (hbase : Planted r₀ t₀)
include hbase

/-- What is left of an import once others have been undone. -/
theorem dropImports_backs (hx : Anchored r₀ t₀ x) (handles : List RecordHandle) :
    ∃ y result, dropImports handles x = (y, .ok result) ∧ Anchored r₀ t₀ y ∧
      (∀ j, y.imports[j]? = if j ∈ handles then none else x.imports[j]?) ∧
      ∀ k parent children, y.Backs k parent children ↔
        x.Backs k parent children ∧ ∀ j ∈ handles, ¬ x.Takes j k children := by
  induction handles generalizing x with
  | nil => exact ⟨x, _, rfl, hx, by simp, by simp⟩
  | cons h handles ih =>
    obtain ⟨y, result, heq, hxy⟩ := dropImport_forgets hbase hx h
    have hy : Anchored r₀ t₀ y := by
      obtain ⟨y', result', heq', hy', -⟩ := dropImport_anchored hbase hx h
      obtain ⟨rfl, -⟩ := Prod.mk.inj (heq'.symm.trans heq)
      exact hy'
    obtain ⟨z, more, heq', hz, himports, hbacks⟩ := ih hy
    refine ⟨z, (result.1 ++ more.1, result.2 || more.2), by simp only [dropImports, heq, heq'], hz,
      fun j => ?_, fun k parent children => ?_⟩
    · rw [himports, hxy.imports]
      simp only [List.mem_cons]
      split_ifs <;> simp_all
    · rw [hbacks, hxy.backs_iff hbase hx hy, and_assoc, List.forall_mem_cons]
      refine and_congr_right fun _ => and_congr_right fun hkept => ?_
      simp only [hxy.takes_iff hx hkept]

/-- What is left of an import once others have been withdrawn. -/
theorem forget_backs (hx : Anchored r₀ t₀ x) (handles : List RecordHandle) :
    ∃ y touched, x.forget handles = (y, .ok touched) ∧ Anchored r₀ t₀ y ∧
      (∀ j, y.imports[j]? = if j ∈ handles then none else x.imports[j]?) ∧
      ∀ k parent children, y.Backs k parent children ↔
        x.Backs k parent children ∧ ∀ j ∈ handles, ¬ x.Takes j k children := by
  obtain ⟨y, ⟨touched, sensors⟩, heq, hy, himports, hbacks⟩ := dropImports_backs hbase hx handles
  refine ⟨if sensors then y.publishSensors else y, Std.ExtTreeSet.ofList touched,
    by simp only [forget, heq], ?_⟩
  split_ifs
  · refine ⟨hy.congr rfl rfl rfl rfl, himports, fun k parent children => ?_⟩
    rw [← hbacks]
    exact ⟨fun hpublished => hpublished.congr rfl rfl, fun hdropped => hdropped.congr rfl rfl⟩
  · exact ⟨hy, himports, hbacks⟩

/-- The imports after a record has been classified of which there was none. -/
theorem classify_backs {header : RecordHeader} {body : Bytes} (hx : Anchored r₀ t₀ x)
    (hnew : x.imports[header.handle]? = none)
    (hsplit : RecordHeader.split record = .ok (header, body))
    (hclassify : x.classify header record = (y, .ok ()))
    (himport : y.imports[h]? = some (.merged parent children k)) : y.Backs k parent children ∨
      x.imports[h]? = some (.merged parent children k) ∧ ¬ x.Backs k parent children := by
  have hy := classify_anchored hbase hx hnew hclassify
  obtain ⟨hfurthers, himports⟩ := classify_gathers hbase hx hnew hsplit hclassify
  rcases himports h _ himport with hold | ⟨-, hstanding⟩
  · exact backs_of_kept hx hy (fun p c => hfurthers.names) hold
  · cases hstanding with
    | merged hread hsettled => exact .inl (hsettled.backs hy)

/-- The imports after a record has been imported. One that was there and is not backed has not been
backed before, or the record has been imported before and undoing that import has taken from it. -/
theorem importRecord_backs (hx : Anchored r₀ t₀ x) (himport : x.importRecord record = (y, .ok ()))
    (hmerged : y.imports[h]? = some (.merged parent children k)) : y.Backs k parent children ∨
      x.imports[h]? = some (.merged parent children k) ∧ (x.Backs k parent children →
        ∃ j, ownHandle? record = some j ∧ j ≠ h ∧ x.Takes j k children) := by
  rcases x.importRecord_cases record with ⟨e, -, heq⟩ | ⟨header, body, hsplit, hcases⟩
  · obtain ⟨rfl, -⟩ := Prod.mk.inj (heq.symm.trans himport)
    have hy : Anchored r₀ t₀ x.skip := hx.congr rfl rfl rfl rfl
    rcases backs_of_kept hx hy (fun _ _ => id) hmerged with hbacks | ⟨hold, hbare⟩
    · exact .inl hbacks
    · exact .inr ⟨hold, fun hbacks => absurd hbacks hbare⟩
  have hown : ownHandle? record = some header.handle := by simp [ownHandle?, hsplit, Except.toOption]
  have hseen : Anchored r₀ t₀ (x.see header.handle) := hx.congr rfl rfl rfl rfl
  obtain ⟨z, touched, hforget, hz, himports, hkept⟩ := forget_backs hbase hseen [header.handle]
  rcases hcases with ⟨hnew, heq⟩ | ⟨-, ⟨z', e, hfails, -⟩ | ⟨z', touched', hforgot, heq⟩⟩
  · have hnone : x.imports[header.handle]? = none := Std.ExtTreeMap.getElem?_eq_none hnew
    rcases classify_backs hbase hseen hnone hsplit (heq ▸ himport) hmerged with
      hbacks | ⟨hold, hbare⟩
    · exact .inl hbacks
    · exact .inr ⟨hold, fun hbacks => (hbare (hbacks.congr rfl rfl)).elim⟩
  · simp [hforget] at hfails
  · obtain ⟨rfl, -⟩ := Prod.mk.inj (hforget.symm.trans hforgot)
    have hnoted : Anchored r₀ t₀ (z.touch touched'.toList) := hz.congr rfl rfl rfl rfl
    have hnone : z.imports[header.handle]? = none := by simp [himports]
    rcases classify_backs hbase hnoted hnone hsplit (heq ▸ himport) hmerged with
      hbacks | ⟨hold, hbare⟩
    · exact .inl hbacks
    have hold : z.imports[h]? = some (.merged parent children k) := hold
    rw [himports] at hold
    split_ifs at hold with hh
    have hother : header.handle ≠ h := fun heq => hh (List.mem_singleton.mpr heq.symm)
    refine .inr ⟨hold, fun hbacks => ⟨header.handle, hown, hother, ?_⟩⟩
    by_contra htakes
    have hz : z.Backs k parent children := (hkept k parent children).mpr
      ⟨hbacks.congr rfl rfl, fun j hj => List.mem_singleton.mp hj ▸ htakes⟩
    exact hbare (hz.congr rfl rfl)

/-- Going on after a record leaves imports and listings as they are. -/
theorem advance_keeps {next : RecordHandle} {result : Except ExchangeError FetchOutcome}
    (hx : Anchored r₀ t₀ x) (h : x.advance next = (y, result)) : y.imports = x.imports ∧
      ∀ p c, x.repository.Names k p c → y.repository.Names k p c := by
  rcases advance_cases h with ⟨-, rfl, -⟩ | ⟨c, -, ⟨rfl, -⟩ | ⟨rfl, -⟩ | ⟨rfl, -⟩⟩
  · exact ⟨rfl, fun _ _ => id⟩
  · exact ⟨rfl, fun _ _ => id⟩
  · have hfollowed : Anchored r₀ t₀ { x with cycle := some (c.follow next) } :=
      hx.congr rfl rfl rfl rfl
    exact ⟨rfl, fun p c' => (completed_furthers hbase hfollowed).names⟩
  · exact ⟨rfl, fun _ _ => id⟩

/-- The imports after a call. One that was there and is not backed has not been backed before, or
the call has undone another import and that has taken from it. -/
theorem call?_backs (hx : Anchored r₀ t₀ x) (hcall : x.call? call = some y)
    (hmerged : y.imports[h]? = some (.merged parent children k)) : y.Backs k parent children ∨
      x.imports[h]? = some (.merged parent children k) ∧ (x.Backs k parent children →
        ∃ j ∈ x.undone call, j ≠ h ∧ x.Takes j k children) := by
  have hy := call?_anchored hbase hx hcall
  have hquiet (himports : y.imports = x.imports)
      (hnames : ∀ p c, x.repository.Names k p c → y.repository.Names k p c) :
      y.Backs k parent children ∨ x.imports[h]? = some (.merged parent children k) ∧
        (x.Backs k parent children → ∃ j ∈ x.undone call, j ≠ h ∧ x.Takes j k children) := by
    rcases backs_of_kept hx hy hnames (himports ▸ hmerged) with hbacks | ⟨hold, hbare⟩
    · exact .inl hbacks
    · exact .inr ⟨hold, fun hbacks => absurd hbacks hbare⟩
  cases call with
  | resync =>
    obtain rfl := Option.some.inj hcall
    simp [(beginResync_restored hbase hx).imports] at hmerged
  | fetch handles =>
    obtain rfl := Option.some.inj hcall
    rcases x.beginFetch_cases handles with ⟨c, -, heq⟩ | ⟨-, heq⟩ | ⟨-, phase, heq⟩
    all_goals
      rw [heq] at hquiet ⊢
      exact hquiet rfl fun _ _ => id
  | request =>
    obtain rfl := Option.some.inj hcall
    rcases x.nextRequest_cases with heq | heq | ⟨c, handle, rest, phase, -, -, -, heq⟩
    all_goals
      rw [heq] at hquiet ⊢
      exact hquiet rfl fun _ _ => id
  | receive cycle answer =>
    obtain ⟨result, hreceive, hfatal⟩ := call?_receive hcall
    rcases receive_cases hreceive with ⟨rfl, -⟩ | ⟨c, handle, hc, hid, hflight, ⟨e, -, rfl, -⟩ |
      ⟨record, next, hread, ⟨z, e, -, -, he⟩ | ⟨z, himport, hadvance⟩⟩⟩
    · exact hquiet rfl fun _ _ => id
    · exact hquiet rfl fun _ _ => id
    · exact absurd he (hfatal e)
    · have hanswered : Anchored r₀ t₀ (x.answered c) := hx.congr rfl rfl rfl rfl
      have hz := importRecord_anchored hbase hanswered himport
      obtain ⟨himports, hnames⟩ := advance_keeps hbase hz hadvance
      have hbrought : x.brought? cycle answer = ownHandle? record := by
        rw [brought?_of_awaited (awaited?_eq_some.mpr ⟨c, hc, hid, hflight⟩), hread]
        rfl
      rcases importRecord_backs hbase hanswered himport (himports ▸ hmerged) with
        hbacks | ⟨hold, hbare⟩
      · exact .inl (hbacks.mono hz hy hnames)
      · refine .inr ⟨hold, fun hbacks => ?_⟩
        obtain ⟨j, hj, hother, htakes⟩ := hbare (hbacks.congr rfl rfl)
        exact ⟨j, by simp [undone, hbrought, hj], hother, htakes⟩
  | forget handles =>
    obtain rfl := Option.some.inj hcall
    obtain ⟨z, touched, hforget, -, himports, hkept⟩ := forget_backs hbase hx handles
    rw [hforget] at hmerged ⊢
    rw [himports] at hmerged
    split_ifs at hmerged with hh
    rw [hkept]
    by_cases htakes : ∃ j ∈ handles, x.Takes j k children
    · obtain ⟨j, hj, htakes⟩ := htakes
      exact .inr ⟨hmerged, fun _ => ⟨j, hj, fun heq => hh (heq ▸ hj), htakes⟩⟩
    · rcases em (x.Backs k parent children) with hbacks | hbare
      · exact .inl ⟨hbacks, fun j hj hj' => htakes ⟨j, hj, hj'⟩⟩
      · exact .inr ⟨hmerged, fun hbacks => absurd hbacks hbare⟩
  | hostDown =>
    obtain rfl := Option.some.inj hcall
    have hmarked := x.invalidateTermini_rewritten
    exact hquiet x.invalidateTermini_imports fun p c ⟨a, ha, hin⟩ => ⟨a, hmarked.holds.mpr ha, hin⟩
  | link up =>
    obtain rfl := Option.some.inj hcall
    exact hquiet rfl fun _ _ => id

/-- The imports after a run. -/
theorem run?_backs {calls : List Call} (hx : Anchored r₀ t₀ x) (hrun : x.run? calls = some y)
    (hmerged : y.imports[h]? = some (.merged parent children k)) : y.Backs k parent children ∨
      (x.imports[h]? = some (.merged parent children k) ∧ ¬ x.Backs k parent children) ∨
      ∃ u call later, x.ComesTo calls u (call :: later) ∧
        u.imports[h]? = some (.merged parent children k) ∧ u.Backs k parent children ∧
        ∃ j ∈ u.undone call, j ≠ h ∧ u.Takes j k children := by
  induction calls generalizing x with
  | nil =>
    obtain rfl := Option.some.inj hrun
    exact (em (x.Backs k parent children)).imp_right fun hbare => .inl ⟨hmerged, hbare⟩
  | cons call calls ih =>
    obtain ⟨mid, hcall, hrest⟩ := Option.bind_eq_some_iff.mp hrun
    rcases ih (call?_anchored hbase hx hcall) hrest with hbacks | ⟨hold, hbare⟩ |
      ⟨u, call', later, hu, hlost⟩
    · exact .inl hbacks
    · -- the import was not backed any more after the first call
      obtain ⟨hold, htaken⟩ := (call?_backs hbase hx hcall hold).resolve_left hbare
      refine .inr ((em (x.Backs k parent children)).symm.imp (fun hbare => ⟨hold, hbare⟩) ?_)
      exact fun hbacks => ⟨x, call, calls, .refl x _, hold, hbacks, htaken hbacks⟩
    · exact .inr (.inr ⟨u, call', later, hu.step hcall, hlost⟩)

end calls

/-- An import of an association is backed, unless another import has been undone since and has taken
one of its children with it. -/
theorem import_backed {c : Configuration} {names : EntityNames} {calls : List Call}
    (hranges : c.settings.ownRange.Apart c.settings.hostRange) (hseed : c.seed = .ok (r, t))
    (hrun : (start c.settings names r t).run? calls = some x)
    (hmerged : x.imports[h]? = some (.merged parent children k)) : x.Backs k parent children ∨
      ∃ u call later, (start c.settings names r t).ComesTo calls u (call :: later) ∧
        u.imports[h]? = some (.merged parent children k) ∧ u.Backs k parent children ∧
        ∃ j ∈ u.undone call, j ≠ h ∧ u.Takes j k children := by
  obtain ⟨hplanted, -, hown, hhost⟩ := seed_planted hranges hseed
  have hx : Anchored r t (start c.settings names r t) :=
    start_anchored hplanted hown.symm hhost.symm
  refine (run?_backs hplanted hx hrun hmerged).imp_right fun hlost => hlost.resolve_left ?_
  rintro ⟨hnone, -⟩
  simp [start] at hnone

/-- An answer with a record that puts a memory module into the card of the chassis. -/
def memoryListing (h next : RecordHandle) : Bytes :=
  let memory : Association := ⟨2, Association.physical, ⟨68, 1, 1⟩, [⟨135, 1, 2⟩]⟩
  (RecordResponse.single next (encodeRecord h memory)).encode

/-- The memory module stands behind the import of the second record. -/
theorem import_backed_memory :
    let seeded := (Containment.empty.addRoot ⟨11521, 1, 0⟩ .own).1
    let begun := start Configuration.standard.settings ⟨[]⟩ (.empty .localDefault .hostDefault) seeded
    let calls : List Call := [.resync, .request, .receive 0 (.ok (cardListing 1 Association.physical 2)),
      .request, .receive 0 (.ok (memoryListing 2 RecordHandle.terminator))]
    ∃ x, begun.run? calls = some x ∧
      x.imports[(2 : RecordHandle)]? = some (.merged ⟨68, 1, 1⟩ [⟨135, 1, 2⟩] 2) ∧
      (x.Backs 2 ⟨68, 1, 1⟩ [⟨135, 1, 2⟩] ∨ ∃ u call later, begun.ComesTo calls u (call :: later) ∧
        u.imports[(2 : RecordHandle)]? = some (.merged ⟨68, 1, 1⟩ [⟨135, 1, 2⟩] 2) ∧
        u.Backs 2 ⟨68, 1, 1⟩ [⟨135, 1, 2⟩] ∧
        ∃ j ∈ u.undone call, j ≠ 2 ∧ u.Takes j 2 [⟨135, 1, 2⟩]) := by
  intro seeded begun calls
  have hrun : (begun.run? calls).any (fun x =>
      x.imports[(2 : RecordHandle)]? = some (.merged ⟨68, 1, 1⟩ [⟨135, 1, 2⟩] 2)) = true := by
    decide +kernel
  obtain ⟨x, hx, hmerged⟩ := (Option.any_eq_true _ _).mp hrun
  have hmerged := of_decide_eq_true hmerged
  exact ⟨x, hx, hmerged,
    import_backed (c := .standard) ⟨by decide, by decide, by decide⟩ rfl hx hmerged⟩

/-- The first record is withdrawn and the card goes. The import of the second one still names the
record that has listed the memory module in it. -/
theorem import_dangles_after_forget :
    let seeded := (Containment.empty.addRoot ⟨11521, 1, 0⟩ .own).1
    Configuration.standard.seed = .ok (.empty .localDefault .hostDefault, seeded) ∧
    ∃ x, (start Configuration.standard.settings ⟨[]⟩ (.empty .localDefault .hostDefault) seeded).run?
        [.resync, .request, .receive 0 (.ok (cardListing 1 Association.physical 2)), .request,
          .receive 0 (.ok (memoryListing 2 RecordHandle.terminator)), .forget [1]] = some x ∧
      x.imports[(2 : RecordHandle)]? = some (.merged ⟨68, 1, 1⟩ [⟨135, 1, 2⟩] 2) ∧
      x.repository.get? 2 = none ∧ x.tree.findExact? ⟨135, 1, 2⟩ = none ∧
      ¬ x.Backs 2 ⟨68, 1, 1⟩ [⟨135, 1, 2⟩] := by
  intro seeded
  have hrun : ((start Configuration.standard.settings ⟨[]⟩ (.empty .localDefault .hostDefault)
      seeded).run? [.resync, .request, .receive 0 (.ok (cardListing 1 Association.physical 2)),
        .request, .receive 0 (.ok (memoryListing 2 RecordHandle.terminator)), .forget [1]]).any
      (fun x => x.imports[(2 : RecordHandle)]? = some (.merged ⟨68, 1, 1⟩ [⟨135, 1, 2⟩] 2) ∧
        (x.repository.get? 2).isNone ∧ x.tree.findExact? ⟨135, 1, 2⟩ = none) = true := by
    decide +kernel
  obtain ⟨x, hx, hfacts⟩ := (Option.any_eq_true _ _).mp hrun
  obtain ⟨hmerged, hgone, hfree⟩ := of_decide_eq_true hfacts
  have hgone : x.repository.get? 2 = none := Option.isNone_iff_eq_none.mp hgone
  refine ⟨rfl, x, hx, hmerged, hgone, hfree, fun hbacks => ?_⟩
  obtain ⟨a, ha, -⟩ := hbacks.record
  simp [ha.get] at hgone

end DescriptorExchange.Exchange
