import DescriptorExchange.Proofs.Exchange.Holdings
import DescriptorExchange.Proofs.Repository.Legible

/-!
Withdrawals do not fail. Whatever has been asked of the exchange, the record that lists the children
of a merge can be read while it is there, so every import can be undone.
-/
namespace DescriptorExchange.Exchange

variable {x y z : Exchange} {h k : RecordHandle}

/-- The imports are the same, and association records that could be read still can. -/
structure Tends (x y : Exchange) : Prop where
  imports : y.imports = x.imports
  legible : ∀ k, x.repository.Legible k → y.repository.Legible k

namespace Tends

theorem refl (x : Exchange) : Tends x x := ⟨rfl, fun _ hk => hk⟩

theorem trans (hxy : Tends x y) (hyz : Tends y z) : Tends x z :=
  ⟨hyz.imports.trans hxy.imports, fun k hk => hyz.legible k (hxy.legible k hk)⟩

theorem aside (hrepository : y.repository = x.repository) (himports : y.imports = x.imports) :
    Tends x y :=
  ⟨himports, fun _ hk => hrepository ▸ hk⟩

end Tends

section merging

theorem mergeChild_tends (x : Exchange) (node : NodeId) (parent : Entity) (kind : UInt8)
    (child : Entity) : Tends x (x.mergeChild node parent kind child).1 ∧
      ∀ k, (x.mergeChild node parent kind child).2 = .ok (some k) →
        (x.mergeChild node parent kind child).1.repository.Legible k := by
  cases hattach : x.tree.attach node child .host with
  | error e =>
    rw [mergeChild_of_refused hattach]
    exact ⟨.refl x, by simp⟩
  | ok grown =>
    obtain ⟨tree, placement⟩ := grown
    rw [mergeChild_of_attached hattach]
    cases hassociate : x.repository.associate parent kind child with
    | error e => exact ⟨.aside (by simp) (by simp), by simp⟩
    | ok found =>
      obtain ⟨repository, j, changed⟩ := found
      obtain ⟨hj, hkeeps⟩ := Repository.legible_of_associate hassociate
      have hlisted : Tends x { x.grow tree placement child with repository } :=
        ⟨grow_imports .., hkeeps⟩
      refine ⟨?_, fun k hk => ?_⟩
      · cases changed
        · exact hlisted
        · exact hlisted.trans (.aside rfl rfl)
      · simp only [Except.ok.injEq] at hk
        split_ifs at hk
        obtain rfl := Option.some.inj hk
        cases changed <;> exact hj

theorem mergeChildren_tends (node : NodeId) (parent : Entity) (kind : UInt8)
    (children : List Entity) (x : Exchange) :
    Tends x (mergeChildren node parent kind children x).1 ∧
      ∀ new, (mergeChildren node parent kind children x).2 = .ok new →
        ∀ entry ∈ new, (mergeChildren node parent kind children x).1.repository.Legible entry.2 := by
  induction children generalizing x with
  | nil => exact ⟨.refl x, fun new hnew => by simp [← Except.ok.inj hnew]⟩
  | cons child rest ih =>
    obtain ⟨hchild, hlegible⟩ := mergeChild_tends x node parent kind child
    unfold mergeChildren
    split
    next y e heq =>
      rw [heq] at hchild
      exact ⟨hchild, by simp⟩
    next y record heq =>
      rw [heq] at hchild hlegible
      obtain ⟨hrest, hmore⟩ := ih y
      split
      next z e heq' =>
        rw [heq'] at hrest
        exact ⟨hchild.trans hrest, by simp⟩
      next z more heq' =>
        rw [heq'] at hrest hmore
        refine ⟨hchild.trans hrest, fun new hnew entry hentry => ?_⟩
        obtain rfl := Except.ok.inj hnew
        rcases List.mem_append.mp hentry with hentry | hentry
        · obtain ⟨k, hk, rfl⟩ := Option.map_eq_some_iff.mp (Option.mem_toList.mp hentry)
          exact hrest.legible k (hlegible k (congrArg Except.ok hk))
        · exact hmore more rfl entry hentry

end merging

section undoing

theorem stripAll_legible {range : HandleRange} (es : List Entity) {r : Repository}
    (hk : r.Legible k) : (stripAll range es r).1.Legible k :=
  stripAll_induction (p := fun s => s.Legible k) (fun _ e hs => hs.strip e range) es hk

/-- Taking back a merge fails only if the record that lists the child cannot be read. -/
theorem unmerge_tends (x : Exchange) (k : RecordHandle) (child : Entity) :
    Tends x (x.unmerge k child).1 ∧
      (x.repository.Legible k → ∃ touched, (x.unmerge k child).2 = .ok touched) := by
  rcases x.unmerge_cases k child with
    ⟨-, heq⟩ | ⟨id, notices, touched, -, -, -, heq⟩ | ⟨id, -, -, ⟨-, heq⟩ | ⟨record, hget, heq⟩⟩
  · rw [heq]
    exact ⟨.refl x, fun _ => ⟨_, rfl⟩⟩
  · rw [heq]
    exact ⟨⟨rfl, fun j hj => stripAll_legible _ hj⟩, fun _ => ⟨_, rfl⟩⟩
  · rw [heq]
    exact ⟨.refl x, fun _ => ⟨_, rfl⟩⟩
  · rw [heq]
    cases hremove : x.repository.removeChild k child with
    | error e =>
      refine ⟨.refl x, fun hk => ?_⟩
      obtain ⟨result, hok⟩ := hk.removeChild_isOk hget child
      simp [hremove] at hok
    | ok result =>
      obtain ⟨repository, changed⟩ := result
      exact ⟨⟨rfl, fun j hj => hj.removeChild hremove⟩, fun _ => ⟨_, rfl⟩⟩

theorem unmergeAll_tends (children : List Entity) (x : Exchange) (hk : x.repository.Legible k) :
    ∃ y touched, unmergeAll k children x = (y, .ok touched) ∧ Tends x y := by
  induction children generalizing x with
  | nil => exact ⟨x, [], rfl, .refl x⟩
  | cons child rest ih =>
    obtain ⟨hchild, hok⟩ := unmerge_tends x k child
    obtain ⟨touched, htouched⟩ := hok hk
    obtain ⟨y, more, hrest, hy⟩ := ih _ (hchild.legible k hk)
    have hfirst : x.unmerge k child = ((x.unmerge k child).1, .ok touched) := Prod.ext rfl htouched
    refine ⟨y, touched ++ more, ?_, hchild.trans hy⟩
    rw [unmergeAll, hfirst]
    simp only [hrest]

theorem beginResync_imports (x : Exchange) : x.beginResync.1.imports = ∅ :=
  retractImports_induction (p := fun y => y.imports = ∅)
    (fun _ _ k _ y child hy => (unmerge_tends y k child).1.imports.trans hy) rfl

theorem dropStored_tends (x : Exchange) (k : RecordHandle) : Tends x (x.dropStored k).1 := by
  rcases x.dropStored_cases k with ⟨-, heq⟩ | ⟨termini, sensor, heq⟩
  · rw [heq]
    exact .refl x
  · rw [heq]
    exact ⟨rfl, fun j hj => hj.erase k⟩

end undoing

/-- Every import can be undone: what has been merged is listed where it can be read, outside the range
of the host, and what has been stored is in that range. -/
structure Undoable (x : Exchange) : Prop where
  parted : x.Parted
  merged : ∀ {h k : RecordHandle} {parent children}, x.imports[h]? = some (.merged parent children k) →
    x.repository.Legible k
  stored : ∀ {h k : RecordHandle}, x.imports[h]? = some (.stored k) →
    x.settings.hostRange.contains k = true

namespace Undoable

theorem start {settings : ExchangeSettings} (names : EntityNames) {r : Repository} (t : Containment)
    (hsettings : settings.ownRange.Apart settings.hostRange) (hranges : r.ownRange.Apart r.hostRange)
    (hhost : r.hostRange = settings.hostRange) : (start settings names r t).Undoable where
  parted := ⟨hhost, hranges, hsettings, fun hj => by simp [Exchange.start] at hj⟩
  merged hj := by simp [Exchange.start] at hj
  stored hj := by simp [Exchange.start] at hj

theorem tends (hx : x.Undoable) (hy : y.Parted) (hsettings : y.settings = x.settings)
    (hxy : Tends x y) : y.Undoable where
  parted := hy
  merged hj := hxy.legible _ (hx.merged (hxy.imports ▸ hj))
  stored hj := hsettings ▸ hx.stored (hxy.imports ▸ hj)

theorem sheds {gone : List RecordHandle} (hx : x.Undoable) (hsheds : Sheds x y gone)
    (hxy : Tends x y) : y.Undoable :=
  hx.tends hsheds.parted hsheds.settings hxy

/-- Neither the repository nor the imports change. -/
theorem aside (hx : x.Undoable) (hsettings : y.settings = x.settings)
    (hrepository : y.repository = x.repository) (himports : y.imports = x.imports) : y.Undoable :=
  hx.sheds ((Sheds.refl hx.parted).aside hsettings hrepository himports) (.aside hrepository himports)

/-- An import is forgotten, whatever it has brought. -/
theorem erase (hx : x.Undoable) (h : RecordHandle) :
    ({ x with imports := x.imports.erase h } : Exchange).Undoable := by
  refine ⟨hx.parted.of_ranges rfl rfl rfl fun hj => ?_, fun hj => ?_, fun hj => ?_⟩
  all_goals
    simp only [imports_erase] at hj
    split_ifs at hj
  · exact hx.parted.merged hj
  · exact hx.merged hj
  · exact hx.stored hj

/-- An import is undone. -/
theorem dropImport (hx : x.Undoable) (h : RecordHandle) :
    ∃ y result, x.dropImport h = (y, .ok result) ∧ y.Undoable ∧
      ∀ j, y.imports[j]? = if j = h then none else x.imports[j]? := by
  let rest : Exchange := { x with imports := x.imports.erase h }
  have hrest : rest.Undoable := hx.erase h
  have hgone {y : Exchange} (himports : y.imports = rest.imports) (j : RecordHandle) :
      y.imports[j]? = if j = h then none else x.imports[j]? := by
    rw [himports]
    exact imports_erase j
  have hsheds := dropImport_sheds hx.parted h
  simp only [Exchange.dropImport] at hsheds ⊢
  cases hi : x.imports[h]? with
  | none =>
    refine ⟨x, _, rfl, hx, fun j => ?_⟩
    split_ifs with hj
    · rw [hj, hi]
    · rfl
  | some i =>
    simp only [hi] at hsheds
    cases i with
    | stored k =>
      have htends := dropStored_tends rest k
      exact ⟨_, _, rfl, hrest.tends hsheds.parted hsheds.settings htends, hgone htends.imports⟩
    | merged parent children k =>
      obtain ⟨y, touched, hall, htends⟩ := unmergeAll_tends children rest (hx.merged hi)
      simp only [rest] at hall
      simp only [hall] at hsheds ⊢
      exact ⟨y, _, rfl, hrest.tends hsheds.parted hsheds.settings htends, hgone htends.imports⟩

theorem dropImports (hx : x.Undoable) (handles : List RecordHandle) :
    ∃ y result, dropImports handles x = (y, .ok result) ∧ y.Undoable ∧
      ∀ j, y.imports[j]? = if j ∈ handles then none else x.imports[j]? := by
  induction handles generalizing x with
  | nil => exact ⟨x, _, rfl, hx, fun j => by simp⟩
  | cons h handles ih =>
    obtain ⟨y, ⟨touched, sensor⟩, heq, hy, himports⟩ := hx.dropImport h
    obtain ⟨z, ⟨more, sensors⟩, heq', hz, himports'⟩ := ih hy
    refine ⟨z, (touched ++ more, sensor || sensors), by simp only [Exchange.dropImports, heq, heq'],
      hz, fun j => ?_⟩
    rw [himports', himports]
    simp only [List.mem_cons]
    split_ifs <;> simp_all

/-- Records of the host are withdrawn without fail. -/
theorem forget (hx : x.Undoable) (handles : List RecordHandle) :
    ∃ y touched, x.forget handles = (y, .ok touched) ∧ y.Undoable ∧
      ∀ j, y.imports[j]? = if j ∈ handles then none else x.imports[j]? := by
  obtain ⟨y, ⟨touched, sensors⟩, heq, hy, himports⟩ := hx.dropImports handles
  refine ⟨if sensors then y.publishSensors else y, Std.ExtTreeSet.ofList touched,
    by simp only [Exchange.forget, heq], ?_⟩
  split_ifs
  · exact ⟨hy.aside rfl rfl rfl, himports⟩
  · exact ⟨hy, himports⟩

/-- A merge is noted for an import that is not there yet. -/
theorem merge (hx : x.Undoable) (hnew : x.imports[h]? = none) (a : Association) :
    (x.merge h a).1.Undoable := by
  have hsheds := merge_sheds hx.parted a (by simp [stored?, hnew] : x.stored? h = none)
  rcases x.merge_cases h a with
    heq | ⟨node, parent, y, -, -, ⟨e, hchildren, heq⟩ | ⟨new, hchildren, hcases⟩⟩
  · rw [heq]
    exact hx.aside rfl rfl rfl
  all_goals
    obtain ⟨htends, hlegible⟩ := mergeChildren_tends node parent a.kind a.children x.findParent
    have hfound : Tends x x.findParent := .aside rfl rfl
    rw [hchildren] at htends hlegible
    replace htends := hfound.trans htends
  · rw [heq] at hsheds ⊢
    exact hx.sheds hsheds htends
  rcases hcases with ⟨-, heq⟩ | ⟨child, k, hmem, heq⟩
  · rw [heq] at hsheds ⊢
    exact hx.sheds hsheds (htends.trans (.aside rfl rfl))
  · rw [heq] at hsheds ⊢
    refine ⟨hsheds.parted, fun {j i parent children} hj => ?_, fun {j i} hj => ?_⟩
    all_goals
      simp only [imports_insert] at hj
      split_ifs at hj
    · simp only [Option.some.injEq, Import.merged.injEq] at hj
      exact hj.2.2 ▸ hlegible new rfl _ hmem
    · exact htends.legible _ (hx.merged (htends.imports ▸ hj))
    · simp at hj
    · rw [hsheds.settings]
      exact hx.stored (htends.imports ▸ hj)

theorem store (hx : x.Undoable) (h : RecordHandle) (record : Bytes) :
    (x.store h record).1.Undoable := by
  have hparted : (x.store h record).1.Parted :=
    (store_stores hx.parted h record).elim Sheds.parted fun hstores => hstores.parted hx.parted
  unfold Exchange.store at hparted ⊢
  cases hinsert : x.repository.insert .host record with
  | error e => exact hx
  | ok made =>
    obtain ⟨repository, k⟩ := made
    simp only [hinsert] at hparted
    have hproper := hx.parted.ranges.hostProper
    obtain ⟨header, body, stored, -, hslot, -, -⟩ := Repository.insert_eq_ok.mp hinsert
    refine ⟨hparted, fun {j i parent children} hj => ?_, fun {j i} hj => ?_⟩
    all_goals
      simp only [touch, mapCycle, imports_insert] at hj
      split_ifs at hj
    · simp at hj
    · refine (hx.merged hj).insert_host hproper ?_ hinsert
      rw [hx.parted.host]
      exact hx.parted.merged hj
    · simp only [Option.some.injEq, Import.stored.injEq] at hj
      have hin : x.repository.hostRange.contains k = true :=
        (Repository.slot?_spec .host hproper hslot).1
      rwa [hx.parted.host, hj] at hin
    · exact hx.stored hj

theorem classify (hx : x.Undoable) {header : RecordHeader} (hnew : x.imports[header.handle]? = none)
    (record : Bytes) : (x.classify header record).1.Undoable := by
  rcases classify_uniform header record with hskip | ⟨⟨_, a⟩, -, hmerge⟩ | ⟨note, -, hstore⟩
  · rw [hskip]
    exact hx.aside rfl rfl rfl
  · rw [hmerge]
    exact hx.merge hnew a
  · rw [hstore]
    have hnoted : ({ x with termini := note x.termini } : Exchange).Undoable := hx.aside rfl rfl rfl
    exact hnoted.store header.handle record

/-- A record is sorted once what an earlier one with its handle has brought is forgotten. -/
theorem importRecord_eq (hx : x.Undoable) {record : Bytes} {header : RecordHeader} {body : Bytes}
    (hsplit : RecordHeader.split record = .ok (header, body)) : ∃ bare touched,
      (x.see header.handle).forget [header.handle] = (bare, .ok touched) ∧ bare.Undoable ∧
      (∀ j, bare.imports[j]? = if j = header.handle then none else x.imports[j]?) ∧
      x.importRecord record = (bare.touch touched.toList).classify header record := by
  have hseen : (x.see header.handle).Undoable := hx.aside rfl rfl rfl
  obtain ⟨bare, touched, hforget, hbare, himports⟩ := hseen.forget [header.handle]
  have himports' (j : RecordHandle) :
      bare.imports[j]? = if j = header.handle then none else x.imports[j]? := by
    rw [himports]
    exact if_congr List.mem_singleton rfl rfl
  refine ⟨bare, touched, hforget, hbare, himports', ?_⟩
  rcases x.importRecord_cases record with ⟨e, hfails, -⟩ | ⟨found, body', hsplit', hcases⟩
  · simp [hsplit] at hfails
  obtain ⟨rfl, -⟩ := Prod.mk.inj (Except.ok.inj (hsplit.symm.trans hsplit'))
  rcases hcases with ⟨hnew, heq⟩ | ⟨-, ⟨y, e, hfails, -⟩ | ⟨y, touched', hforgot, heq⟩⟩
  · have hnone : (x.see header.handle).imports[header.handle]? = none :=
      Std.ExtTreeMap.getElem?_eq_none hnew
    have hnothing : (x.see header.handle).forget [header.handle] = (x.see header.handle, .ok ∅) := by
      simp [Exchange.forget, Exchange.dropImports, Exchange.dropImport, hnone]
    obtain ⟨rfl, htouched⟩ := Prod.mk.inj (hforget.symm.trans hnothing)
    obtain rfl := Except.ok.inj htouched
    have hsame : (x.see header.handle).touch (∅ : HandleSet).toList = x.see header.handle := by
      rw [show (∅ : HandleSet).toList = [] from rfl]
      simp [touch, mapCycle]
    rw [heq, hsame]
  · simp [hforget] at hfails
  · obtain ⟨rfl, htouched⟩ := Prod.mk.inj (hforget.symm.trans hforgot)
    obtain rfl := Except.ok.inj htouched
    exact heq

theorem importRecord (hx : x.Undoable) (record : Bytes) : (x.importRecord record).1.Undoable := by
  rcases x.importRecord_cases record with ⟨e, -, heq⟩ | ⟨header, body, hsplit, -⟩
  · rw [heq]
    exact hx.aside rfl rfl rfl
  · obtain ⟨bare, touched, -, hbare, himports, heq⟩ := hx.importRecord_eq hsplit
    rw [heq]
    have htouched : (bare.touch touched.toList).Undoable := hbare.aside rfl rfl rfl
    exact htouched.classify ((himports header.handle).trans (if_pos rfl)) record

theorem completed (hx : x.Undoable) : x.completed.Undoable :=
  hx.sheds (completed_sheds hx.parted)
    ⟨rfl, fun _ hk => hk.rewritten (applyFixups_alike x.settings x.settings.fixups _).rewritten⟩

theorem advance (hx : x.Undoable) (next : RecordHandle) : (x.advance next).1.Undoable := by
  obtain ⟨y, result, h⟩ : ∃ y result, x.advance next = (y, result) := ⟨_, _, rfl⟩
  rw [h]
  rcases advance_cases h with ⟨-, rfl, -⟩ | ⟨c, -, ⟨rfl, -⟩ | ⟨rfl, -⟩ | ⟨rfl, -⟩⟩
  · exact hx
  · exact hx.aside rfl rfl rfl
  · exact Undoable.completed (hx.aside rfl rfl rfl)
  · exact hx.aside rfl rfl rfl

theorem receive (hx : x.Undoable) (cycle : CycleId) (answer : Except RequestError Bytes) :
    (x.receive cycle answer).1.Undoable := by
  obtain ⟨y, result, h⟩ : ∃ y result, x.receive cycle answer = (y, result) := ⟨_, _, rfl⟩
  rw [h]
  rcases receive_cases h with ⟨rfl, -⟩ | ⟨c, handle, -, -, -, ⟨e, -, rfl, -⟩ |
    ⟨record, next, -, ⟨z, e, himport, rfl, -⟩ | ⟨z, himport, hadvance⟩⟩⟩
  · exact hx.aside rfl rfl rfl
  · exact hx.aside rfl rfl rfl
  all_goals
    have hz := Undoable.importRecord (hx.aside rfl rfl rfl : (x.answered c).Undoable) record
    rw [himport] at hz
  · exact hz.aside rfl rfl rfl
  · have hy := hz.advance next
    rwa [hadvance] at hy

theorem beginResync (hx : x.Undoable) : x.beginResync.1.Undoable :=
  ⟨(beginResync_empties hx.parted).parted, fun hj => by simp [beginResync_imports] at hj,
    fun hj => by simp [beginResync_imports] at hj⟩

/-- Every call leaves imports that can be undone. -/
theorem after (hx : x.Undoable) (call : Call) : (x.after call).Undoable := by
  cases call with
  | resync => exact hx.beginResync
  | fetch handles =>
    rcases x.beginFetch_cases handles with ⟨c, -, heq⟩ | ⟨-, heq⟩ | ⟨-, phase, heq⟩
    all_goals
      rw [Exchange.after, heq]
      exact hx.aside rfl rfl rfl
  | request =>
    rcases x.nextRequest_cases with heq | heq | ⟨c, handle, rest, phase, -, -, -, heq⟩
    all_goals
      rw [Exchange.after, heq]
      exact hx.aside rfl rfl rfl
  | receive cycle answer => exact hx.receive cycle answer
  | forget handles =>
    obtain ⟨y, touched, heq, hy, -⟩ := hx.forget handles
    rwa [Exchange.after, heq]
  | hostDown =>
    have hmarks := (after_turnover hx.parted .hostDown).parted hx.parted
    exact hx.tends hmarks x.invalidateTermini_settings
      ⟨x.invalidateTermini_imports, fun _ hk => hk.rewritten x.invalidateTermini_rewritten⟩
  | link up => exact hx.aside rfl rfl rfl

theorem run? {calls : List Call} (hx : x.Undoable) (hrun : x.run? calls = some y) : y.Undoable :=
  run?_induction (p := Undoable)
    (fun _ _ call hp (_ : True) hcall => after_of_call? hcall ▸ hp.after call) (fun _ _ => trivial)
    hx hrun

end Undoable

end DescriptorExchange.Exchange
