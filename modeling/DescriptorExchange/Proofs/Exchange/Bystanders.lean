import DescriptorExchange.Proofs.Exchange.Provenance
import DescriptorExchange.Proofs.Exchange.Withdrawals
import DescriptorExchange.Proofs.Repository.Locators
import DescriptorExchange.Proofs.Splits

/-!
What the exchange leaves alone. A record outside the range of the host that is no association record
and no effecter of a fix-up is touched by one operation only: when the host goes down, the locators of
its termini are marked wherever they are.
-/
namespace DescriptorExchange

/-- Neither an association record nor the record of an effecter that a fix-up is about. -/
structure Record.Bystander (fixups : List ContainerFixup) (x : Record) : Prop where
  type : x.type ≠ .entityAssociation
  effecter : ∀ f ∈ fixups, x.isEffecter f.effecterId = false

theorem Record.Bystander.of_locator {fixups : List ContainerFixup} {x : Record}
    (htype : x.type = .terminusLocator) : x.Bystander fixups where
  type heq := absurd (htype.symm.trans heq) (by decide)
  effecter f _ := by
    have hother : x.type ≠ .stateEffecter := fun heq => absurd (htype.symm.trans heq) (by decide)
    simp [isEffecter, hother]

namespace Repository

variable {r s t : Repository} {range : HandleRange} {fixups : List ContainerFixup} {k : RecordHandle}

/-- Outside the range the same bystanders are there. -/
structure Spares (range : HandleRange) (fixups : List ContainerFixup) (r s : Repository) : Prop where
  ownRange : s.ownRange = r.ownRange
  hostRange : s.hostRange = r.hostRange
  kept : ∀ {k record}, range.contains k = false → record.Bystander fixups →
    (s.get? k = some record ↔ r.get? k = some record)

namespace Spares

theorem refl (r : Repository) : Spares range fixups r r := ⟨rfl, rfl, fun _ _ => Iff.rfl⟩

theorem trans (hrs : Spares range fixups r s) (hst : Spares range fixups s t) :
    Spares range fixups r t where
  ownRange := hst.ownRange.trans hrs.ownRange
  hostRange := hst.hostRange.trans hrs.hostRange
  kept hk hrecord := (hst.kept hk hrecord).trans (hrs.kept hk hrecord)

/-- Outside the range nothing changes but association records. -/
theorem of_get? (hown : s.ownRange = r.ownRange) (hhost : s.hostRange = r.hostRange)
    (h : ∀ j, range.contains j = false → s.get? j = r.get? j ∨ (r.Legible j ∧ s.Legible j)) :
    Spares range fixups r s := by
  refine ⟨hown, hhost, fun {k record} hk hrecord => ?_⟩
  rcases h k hk with heq | ⟨hr, hs⟩
  · rw [heq]
  · exact ⟨fun hget => absurd (hs record hget).1 hrecord.type,
      fun hget => absurd (hr record hget).1 hrecord.type⟩

theorem associate {parent child : Entity} {kind : UInt8} {changed : Bool}
    (hr : r.ownRange.first ≤ r.ownRange.last)
    (h : r.associate parent kind child = .ok (s, k, changed)) : Spares range fixups r s := by
  obtain ⟨hown, hhost⟩ := associate_ranges h
  refine of_get? hown hhost fun j _ => ?_
  by_cases hj : j = k
  · refine .inr ⟨?_, hj ▸ (legible_of_associate h).1⟩
    subst hj
    rcases associate_eq_ok h with ⟨hfind, -⟩ | ⟨-, -, hcreate⟩
    · exact legible_of_findAssociation? hfind
    · obtain ⟨header, _, _, -, hslot, -⟩ := insert_eq_ok.mp hcreate
      intro record hget
      simp [(slot?_spec .own hr hslot).2] at hget
  · exact .inl (get?_of_associate h fun _ => hj)

theorem removeChild {child : Entity} {changed : Bool} (hk : r.Legible k)
    (h : r.removeChild k child = .ok (s, changed)) : Spares range fixups r s := by
  obtain ⟨hown, hhost⟩ := removeChild_ranges h
  refine of_get? hown hhost fun j _ => ?_
  by_cases hj : j = k
  · exact .inr ⟨hj ▸ hk, hj ▸ hk.removeChild h⟩
  · exact .inl (get?_of_removeChild h fun _ => hj)

theorem strip (r : Repository) (e : Entity) (own : HandleRange) :
    Spares range fixups r (r.strip e own).1 := by
  refine of_get? (strip_ownRange e own) (strip_hostRange e own) fun j _ => ?_
  by_cases hj : j ∈ (r.naming e own).map Prod.fst
  · obtain ⟨⟨j, header, a⟩, hentry, rfl⟩ := List.mem_map.mp hj
    obtain ⟨record, hget, -, htype, hread⟩ := mem_associations.mp (mem_naming.mp hentry).1
    have hlegible : r.Legible j := fun other hother => by
      obtain rfl := Option.some.inj (hget.symm.trans hother)
      exact ⟨htype, _, hread⟩
    exact .inr ⟨hlegible, hlegible.strip e own⟩
  · exact .inl (r.get?_strip_of_not_mem e own hj)

theorem insert {bytes : Bytes} (hr : r.hostRange.first ≤ r.hostRange.last) (hrange : r.hostRange = range)
    (h : r.insert .host bytes = .ok (s, k)) : Spares range fixups r s := by
  obtain ⟨header, body, stored, -, hslot, -, hput⟩ := insert_eq_ok.mp h
  have hin : r.hostRange.contains k = true := (slot?_spec .host hr hslot).1
  refine of_get? (by rw [hput, put_ownRange]) (by rw [hput, put_hostRange]) fun j hj => ?_
  refine .inl (get?_of_insert h ?_)
  rintro rfl
  simp [← hrange, hin] at hj

theorem erase (hk : range.contains k = true) : Spares range fixups r (r.erase k) := by
  refine of_get? rfl rfl fun j hj => .inl ?_
  rw [get?_erase, if_neg]
  rintro rfl
  simp [hk] at hj

theorem removeRange (r : Repository) : Spares range fixups r (r.removeRange range).1 := by
  refine of_get? (removeRange_ownRange _ _) (removeRange_hostRange _ _) fun j hj => .inl ?_
  rw [get?_removeRange, if_neg]
  simp [hj]

/-- The record that a fix-up changes is one of its effecter before and afterwards. -/
theorem applyFixup {f : ContainerFixup} (hf : f ∈ fixups) (settings : ExchangeSettings)
    (r : Repository) : Spares range fixups r (Exchange.applyFixup settings f r).1 := by
  have hsame := (Exchange.applyFixup_alike settings f r).rewritten
  refine ⟨hsame.ownRange, hsame.hostRange, fun {k record} _ hrecord => ?_⟩
  rw [Exchange.applyFixup_def]
  cases f.container? settings r with
  | none => exact Iff.rfl
  | some c =>
    rw [get?_setEffecterContainer]
    split_ifs with hk
    · obtain ⟨⟨-, x, hget, hid⟩, -⟩ := effecter?_eq_some.mp hk
      have hnot {z : Record} (hz : z.isEffecter f.effecterId = true) : z ≠ record := by
        rintro rfl
        exact Bool.false_ne_true ((hrecord.effecter f hf).symm.trans hz)
      have hcontained := ((Record.alike_contained hid c).isEffecter f.effecterId).trans hid
      simp [hget, hnot hid, hnot hcontained]
    · exact Iff.rfl

theorem applyFixups {some : List ContainerFixup} (hsome : some ⊆ fixups) (settings : ExchangeSettings)
    (r : Repository) : Spares range fixups r (Exchange.applyFixups settings some r).1 :=
  Exchange.applyFixups_induction (fun s _ hf hs => hs.trans (applyFixup (hsome hf) settings s)) (.refl r)

end Spares
end Repository

namespace Exchange

variable {x y z : Exchange} {h k : RecordHandle}

/-- Outside the range of the host the same bystanders are there. -/
structure Spares (x y : Exchange) : Prop where
  settings : y.settings = x.settings
  repository :
    Repository.Spares x.settings.hostRange x.settings.fixups x.repository y.repository

namespace Spares

theorem refl (x : Exchange) : Spares x x := ⟨rfl, .refl _⟩

theorem trans (hxy : Spares x y) (hyz : Spares y z) : Spares x z :=
  ⟨hyz.settings.trans hxy.settings, hxy.repository.trans (hxy.settings ▸ hyz.repository)⟩

theorem aside (h : Spares x y) (hsettings : z.settings = y.settings)
    (hrepository : z.repository = y.repository) : Spares x z :=
  ⟨hsettings.trans h.settings, hrepository ▸ h.repository⟩

/-- The repository is edited and nothing else. -/
theorem edit {r : Repository} (h : Spares x y)
    (hr : Repository.Spares y.settings.hostRange y.settings.fixups y.repository r) :
    Spares x { y with repository := r } :=
  h.trans ⟨rfl, hr⟩

end Spares

section merging

theorem mergeChild_spares (hx : x.repository.ownRange.first ≤ x.repository.ownRange.last)
    (node : NodeId) (parent : Entity) (kind : UInt8) (child : Entity) :
    Spares x (x.mergeChild node parent kind child).1 := by
  apply mergeChild_induction (p := Spares x) (.refl x)
  · intro tree placement _
    exact (Spares.refl x).aside (by simp) (by simp)
  · intro tree placement s k changed hassociate hgrown
    apply hgrown.edit
    rw [grow_repository]
    exact .associate hx hassociate
  · intro y k hy
    exact hy.aside rfl rfl

theorem merge_spares (hx : x.repository.ownRange.first ≤ x.repository.ownRange.last)
    (a : Association) : Spares x (x.merge h a).1 :=
  merge_induction (p := Spares x) ((Spares.refl x).aside rfl rfl) ((Spares.refl x).aside rfl rfl)
    (fun node parent y child hy => hy.trans
      (mergeChild_spares (by rwa [hy.repository.ownRange]) node parent a.kind child))
    fun _ _ hy => hy.aside rfl rfl

theorem stripAll_spares {range own : HandleRange} {fixups : List ContainerFixup} (es : List Entity)
    (r : Repository) : Repository.Spares range fixups r (stripAll own es r).1 :=
  stripAll_induction (fun s e hs => hs.trans (.strip s e own)) es (.refl r)

/-- A merge is taken back out of an association record. -/
theorem unmerge_spares (hk : x.repository.Legible k) (child : Entity) :
    Spares x (x.unmerge k child).1 := by
  rcases x.unmerge_cases k child with
    ⟨-, heq⟩ | ⟨id, notices, touched, -, -, -, heq⟩ | ⟨id, -, -, ⟨-, heq⟩ | ⟨entry, -, heq⟩⟩
  · rw [heq]
    exact .refl x
  · rw [heq]
    exact ((Spares.refl x).edit (stripAll_spares (x.tree.detach id).2 x.repository)).aside rfl rfl
  · rw [heq]
    exact .refl x
  · rw [heq]
    cases hremove : x.repository.removeChild k child with
    | error e => exact .refl x
    | ok found => exact (Spares.refl x).edit (.removeChild hk hremove)

/-- The records in which merges are listed stay legible meanwhile. -/
theorem unmergeAll_spares (children : List Entity) (hk : x.repository.Legible k) :
    Spares x (unmergeAll k children x).1 :=
  And.left <| unmergeAll_induction (p := fun y => Spares x y ∧ y.repository.Legible k)
    (fun y child hy => ⟨hy.1.trans (unmerge_spares hy.2 child),
      (unmerge_tends y k child).1.legible k hy.2⟩) children ⟨.refl x, hk⟩

theorem retractImports_spares {imports : List Import}
    (hmerged : ∀ parent children k, Import.merged parent children k ∈ imports →
      x.repository.Legible k) : Spares x (retractImports imports x).1 :=
  And.left <| retractImports_induction
    (p := fun y => Spares x y ∧ ∀ k, x.repository.Legible k → y.repository.Legible k)
    (fun parent children k hmem y child hy =>
      ⟨hy.1.trans (unmerge_spares (hy.2 k (hmerged parent children k hmem)) child),
        fun j hj => (unmerge_tends y k child).1.legible j (hy.2 j hj)⟩) ⟨.refl x, fun _ hk => hk⟩

end merging

section importing

theorem dropStored_spares (hk : x.settings.hostRange.contains k = true) :
    Spares x (x.dropStored k).1 := by
  rcases x.dropStored_cases k with ⟨-, heq⟩ | ⟨termini, sensor, heq⟩
  · rw [heq]
    exact .refl x
  · rw [heq]
    exact ((Spares.refl x).edit (.erase hk)).aside rfl rfl

theorem dropImport_spares (hx : x.Undoable) (h : RecordHandle) : Spares x (x.dropImport h).1 := by
  have herased : Spares x { x with imports := x.imports.erase h } := (Spares.refl x).aside rfl rfl
  simp only [dropImport]
  split
  next => exact .refl x
  next k hi => exact herased.trans (dropStored_spares (hx.stored hi))
  next parent children k hi =>
    have hall := herased.trans (unmergeAll_spares children (hx.merged hi))
    split
    next heq => rwa [heq] at hall
    next heq => rwa [heq] at hall

theorem dropImports_spares (hx : x.Undoable) (handles : List RecordHandle) :
    Spares x (dropImports handles x).1 := by
  refine And.left (dropImports_induction (p := fun y => Spares x y ∧ y.Undoable)
    (fun y h hy => ⟨hy.1.trans (dropImport_spares hy.2 h), ?_⟩) handles ⟨.refl x, hx⟩)
  obtain ⟨z, result, heq, hz, -⟩ := hy.2.dropImport h
  rwa [heq]

theorem forget_spares (hx : x.Undoable) (handles : List RecordHandle) :
    Spares x (x.forget handles).1 := by
  have hdropped := dropImports_spares hx handles
  unfold forget
  split
  next heq => rwa [heq] at hdropped
  next y touched sensors heq =>
    rw [heq] at hdropped
    cases sensors
    · exact hdropped
    · exact hdropped.aside rfl rfl

theorem store_spares (hx : x.Parted) (h : RecordHandle) (record : Bytes) :
    Spares x (x.store h record).1 := by
  unfold store
  cases hinsert : x.repository.insert .host record with
  | error e => exact .refl x
  | ok made =>
    have hedited := (Spares.refl x).edit (.insert hx.ranges.hostProper hx.host hinsert)
    exact hedited.aside rfl rfl

theorem classify_spares (hx : x.Parted) (header : RecordHeader) (record : Bytes) :
    Spares x (x.classify header record).1 := by
  rcases classify_uniform header record with hskip | ⟨⟨_, a⟩, -, hmerge⟩ | ⟨note, -, hstore⟩
  · rw [hskip]
    exact (Spares.refl x).aside rfl rfl
  · rw [hmerge]
    exact merge_spares hx.ranges.ownProper a
  · rw [hstore]
    have hnoted : Spares x { x with termini := note x.termini } := (Spares.refl x).aside rfl rfl
    have hparted : ({ x with termini := note x.termini } : Exchange).Parted :=
      hx.of_ranges rfl rfl rfl hx.merged
    exact hnoted.trans (store_spares hparted header.handle record)

theorem importRecord_spares (hx : x.Undoable) (record : Bytes) :
    Spares x (x.importRecord record).1 := by
  rcases x.importRecord_cases record with ⟨e, -, heq⟩ | ⟨header, body, hsplit, -⟩
  · rw [heq]
    exact (Spares.refl x).aside rfl rfl
  have hseen : Spares x (x.see header.handle) := (Spares.refl x).aside rfl rfl
  have hundoable : (x.see header.handle).Undoable := hx.aside rfl rfl rfl
  have hforgotten := hseen.trans (forget_spares hundoable [header.handle])
  obtain ⟨bare, touched, hforget, hbare, -, heq⟩ := hx.importRecord_eq hsplit
  rw [hforget] at hforgotten
  rw [heq]
  have htouched : (bare.touch touched.toList).Undoable := hbare.aside rfl rfl rfl
  have hnoted : Spares x (bare.touch touched.toList) := hforgotten.aside rfl rfl
  exact hnoted.trans (classify_spares htouched.parted header record)

end importing

section calls

theorem completed_spares (x : Exchange) : Spares x x.completed :=
  ((Spares.refl x).edit (.applyFixups (List.Subset.refl _) x.settings x.repository)).aside rfl rfl

theorem advance_spares (x : Exchange) (next : RecordHandle) : Spares x (x.advance next).1 := by
  obtain ⟨y, result, h⟩ : ∃ y result, x.advance next = (y, result) := ⟨_, _, rfl⟩
  rw [h]
  rcases advance_cases h with ⟨-, rfl, -⟩ | ⟨c, -, ⟨rfl, -⟩ | ⟨rfl, -⟩ | ⟨rfl, -⟩⟩
  · exact .refl _
  · exact (Spares.refl x).aside rfl rfl
  · have hfollowed : Spares x { x with cycle := some (c.follow next) } :=
      (Spares.refl x).aside rfl rfl
    exact hfollowed.trans (completed_spares _)
  · exact (Spares.refl x).aside rfl rfl

theorem receive_spares (hx : x.Undoable) (cycle : CycleId) (answer : Except RequestError Bytes) :
    Spares x (x.receive cycle answer).1 := by
  obtain ⟨y, result, hreceive⟩ : ∃ y result, x.receive cycle answer = (y, result) := ⟨_, _, rfl⟩
  rw [hreceive]
  rcases receive_cases hreceive with ⟨rfl, -⟩ | ⟨c, handle, -, -, -, hcases⟩
  · exact (Spares.refl x).aside rfl rfl
  have hanswered : Spares x (x.answered c) := (Spares.refl x).aside rfl rfl
  rcases hcases with ⟨e, -, rfl, -⟩ | ⟨record, next, -, hcases⟩
  · exact hanswered.aside rfl rfl
  have himported := importRecord_spares (hx.aside rfl rfl rfl : (x.answered c).Undoable) record
  rcases hcases with ⟨z, e, himport, rfl, -⟩ | ⟨z, himport, hadvance⟩
  all_goals rw [himport] at himported
  · exact (hanswered.trans himported).aside rfl rfl
  · have hy := advance_spares z next
    rw [hadvance] at hy
    exact (hanswered.trans himported).trans hy

theorem beginResync_spares (hx : x.Undoable) : Spares x x.beginResync.1 := by
  let begun := (x.startCycle .chain [RecordHandle.terminator]).1
  have hretracted : Spares x begun.retractMerges.1 := by
    refine Spares.trans (.aside (.refl x) rfl rfl : Spares x { begun with imports := ∅ })
      (retractImports_spares fun parent children k hmem => ?_)
    obtain ⟨⟨h, i⟩, hentry, rfl⟩ := List.mem_map.mp hmem
    exact hx.merged (Std.ExtTreeMap.mem_toList_iff_getElem?_eq_some.mp hentry)
  exact (hretracted.edit (.removeRange begun.retractMerges.1.repository)).aside rfl rfl

/-- All calls but one spare the bystanders. -/
theorem after_spares (hx : x.Undoable) {call : Call} (hcall : call ≠ .hostDown) :
    Spares x (x.after call) := by
  cases call with
  | resync => exact beginResync_spares hx
  | fetch handles =>
    rcases x.beginFetch_cases handles with ⟨c, -, heq⟩ | ⟨-, heq⟩ | ⟨-, phase, heq⟩
    all_goals
      rw [after, heq]
      exact (Spares.refl x).aside rfl rfl
  | request =>
    rcases x.nextRequest_cases with heq | heq | ⟨c, handle, rest, phase, -, -, -, heq⟩
    all_goals
      rw [after, heq]
      exact (Spares.refl x).aside rfl rfl
  | receive cycle answer => exact receive_spares hx cycle answer
  | forget handles => exact forget_spares hx handles
  | hostDown => exact absurd rfl hcall
  | link up => exact (Spares.refl x).aside rfl rfl

end calls

section termini

/-- The locators of the termini that are known are marked, wherever they are. -/
theorem get?_invalidateTermini (x : Exchange) (k : RecordHandle) :
    x.invalidateTermini.1.repository.get? k =
      (x.repository.get? k).map (Record.unreached x.termini.contains) := by
  have hpass (is : List UInt16) (s : Repository) :
      (is.foldl (fun s i => (s.setLocatorValidity i false).1) s).get? k =
        (s.get? k).map (Record.unreached is.contains) := by
    induction is generalizing s with
    | nil =>
      cases hget : s.get? k with
      | none => simpa using hget
      | some record =>
        rw [List.foldl_nil, hget, Option.map_some, Record.unreached_eq_self fun _ _ _ => rfl]
    | cons i rest ih =>
      rw [List.foldl_cons, ih, Repository.get?_setLocatorValidity_false, Option.map_map]
      congr 1
      funext record
      exact Record.unreached_or
  have hknown : x.termini.keys.contains = x.termini.contains := by
    funext i
    rw [Bool.eq_iff_iff, List.contains_iff_mem, Std.ExtTreeMap.mem_keys, Std.ExtTreeMap.contains_iff_mem]
  rw [invalidateTermini_fst, ← hknown]
  exact hpass x.termini.keys x.repository

theorem hostDown_termini (x : Exchange) (i : UInt16) :
    (x.after .hostDown).termini[i]? = x.termini[i]?.map fun t => { t with valid := false } :=
  x.getElem?_invalidateTermini i

end termini

section runs

/-- In the course of the calls the host goes down when the terminus is known. -/
def GoesDown (x : Exchange) (calls : List Call) (i : UInt16) : Prop :=
  ∃ done call later, calls = done ++ call :: later ∧ call = .hostDown ∧ i ∈ (x.afterAll done).termini

/-- The record is a valid locator of a terminus with which the host goes down. -/
def Struck (x : Exchange) (calls : List Call) (record : Record) : Prop :=
  ∃ t, record.locator? = some t ∧ t.valid = true ∧ x.GoesDown calls t.terminusHandle

variable {calls : List Call} {call : Call} {record : Record} {i : UInt16}

theorem goesDown_concat : x.GoesDown (calls ++ [call]) i ↔
    (call = .hostDown ∧ i ∈ (x.afterAll calls).termini) ∨ x.GoesDown calls i :=
  Splits.exists_concat_iff

/-- What becomes of a valid locator when the host goes down depends on whether its terminus is known. -/
theorem struck_concat : x.Struck (calls ++ [call]) record ↔ x.Struck calls record ∨
    (call = .hostDown ∧ ∃ t, record.locator? = some t ∧ t.valid = true ∧
      t.terminusHandle ∈ (x.afterAll calls).termini) := by
  simp only [Struck, goesDown_concat]
  constructor
  · rintro ⟨t, ht, hvalid, ⟨rfl, hknown⟩ | hdown⟩
    · exact .inr ⟨rfl, t, ht, hvalid, hknown⟩
    · exact .inl ⟨t, ht, hvalid, hdown⟩
  · rintro (⟨t, ht, hvalid, hdown⟩ | ⟨rfl, t, ht, hvalid, hknown⟩)
    · exact ⟨t, ht, hvalid, .inr hdown⟩
    · exact ⟨t, ht, hvalid, .inl ⟨rfl, hknown⟩⟩

theorem Struck.bystander {fixups : List ContainerFixup} (h : x.Struck calls record) :
    record.invalidated.Bystander fixups := by
  obtain ⟨t, ht, -, -⟩ := h
  exact .of_locator (Record.locator?_eq_some.mp (Record.locator?_invalidated ht)).1

theorem Struck.unreached {known : UInt16 → Bool} (h : x.Struck calls record) :
    record.invalidated.unreached known = record.invalidated := by
  obtain ⟨t, ht, -, -⟩ := h
  exact Record.unreached_invalidated ht

theorem Undoable.afterAll (hx : x.Undoable) (calls : List Call) :
    (x.afterAll calls).Undoable ∧ (x.afterAll calls).settings = x.settings := by
  refine afterAll_induction (p := fun y => y.Undoable ∧ y.settings = x.settings)
    (fun y call hy (_ : True) => ⟨hy.1.after call, ?_⟩) (fun _ _ => trivial) ⟨hx, rfl⟩
  by_cases hcall : call = .hostDown
  · rw [hcall]
    exact y.invalidateTermini_settings.trans hy.2
  · exact (after_spares hy.1 hcall).settings.trans hy.2

/-- A record that is spared by all else is struck just when the host goes down with its terminus. -/
theorem bystander_after (hx : x.Undoable) (hk : x.settings.hostRange.contains k = false)
    (hget : x.repository.get? k = some record) (hrecord : record.Bystander x.settings.fixups)
    (calls : List Call) :
    (x.Struck calls record → (x.afterAll calls).repository.get? k = some record.invalidated) ∧
      (¬ x.Struck calls record → (x.afterAll calls).repository.get? k = some record) := by
  induction calls using List.reverseRecOn with
  | nil =>
    refine ⟨?_, fun _ => hget⟩
    rintro ⟨t, -, -, done, call, later, heq, -⟩
    simp at heq
  | append_singleton calls call ih =>
    obtain ⟨hstruck, hspared⟩ := ih
    obtain ⟨hundoable, hsettings⟩ := hx.afterAll calls
    rw [afterAll_concat, struck_concat]
    by_cases hcall : call = .hostDown
    · subst hcall
      have hmap := get?_invalidateTermini (x.afterAll calls) k
      refine ⟨fun hnow => ?_, fun hnot => ?_⟩
      · by_cases hbefore : x.Struck calls record
        · rw [hstruck hbefore, Option.map_some, hbefore.unreached] at hmap
          exact hmap
        · obtain ⟨-, t, ht, hvalid, hknown⟩ := hnow.resolve_left hbefore
          rw [hspared hbefore, Option.map_some,
            Record.unreached_of_valid ht hvalid (Std.ExtTreeMap.contains_iff_mem.mpr hknown)] at hmap
          exact hmap
      · obtain ⟨hbefore, hnot⟩ := not_or.mp hnot
        rw [hspared hbefore, Option.map_some, Record.unreached_eq_self] at hmap
        · exact hmap
        · refine fun t ht hvalid => Bool.eq_false_iff.mpr fun hknown => hnot ⟨rfl, t, ht, hvalid, ?_⟩
          exact Std.ExtTreeMap.contains_iff_mem.mp hknown
    · have hspares := after_spares hundoable hcall
      rw [← hsettings] at hk hrecord
      refine ⟨?_, fun hnot => ?_⟩
      · rintro (hbefore | ⟨rfl, -⟩)
        · exact (hspares.repository.kept hk hbefore.bystander).mpr (hstruck hbefore)
        · exact absurd rfl hcall
      · exact (hspares.repository.kept hk hrecord).mpr (hspared fun hbefore => hnot (.inl hbefore))

/-- A record of the controller's own that no merge and no fix-up is about keeps its handle and all its
bytes, unless it is a valid locator of a terminus that the host is known to have when it goes down. Then
it loses its validity and keeps the rest. -/
theorem own_records_left_alone (settings : ExchangeSettings) (names : EntityNames) (r : Repository)
    (t : Containment) (hsettings : settings.ownRange.Apart settings.hostRange)
    (hranges : r.ownRange.Apart r.hostRange) (hhost : r.hostRange = settings.hostRange)
    (calls : List Call) (hk : r.ownRange.contains k = true) (hget : r.get? k = some record)
    (hrecord : record.Bystander settings.fixups) :
    let x := start settings names r t
    let y := x.afterAll calls
    (¬ x.Struck calls record → y.repository.get? k = some record) ∧
      (x.Struck calls record →
        y.repository.get? k = some record.invalidated ∧ record.Marked record.invalidated) := by
  intro x y
  have hx : x.Undoable := .start names t hsettings hranges hhost
  have hout : x.settings.hostRange.contains k = false := hx.parted.not_host hk
  obtain ⟨hstruck, hspared⟩ := bystander_after hx hout hget hrecord calls
  refine ⟨hspared, fun hnow => ⟨hstruck hnow, record.marked_invalidated ?_⟩⟩
  obtain ⟨t, ht, -⟩ := hnow
  exact (Record.locator?_eq_some.mp ht).1

/-- A locator of the controller's own, for a terminus handle the host uses too. -/
def ownLocator : Record :=
  let locator : TerminusLocator := ⟨7, true, ⟨1⟩, 0, .endpoint ⟨8⟩⟩
  ⟨.terminusLocator, .own, encodeRecord 1 locator⟩

/-- A sensor beside the locator stays as it is. -/
theorem own_records_left_alone_sensor :
    let sensor : Record := ⟨.numericSensor, .own, [2, 0, 0, 0, 1, 2, 0, 0, 0, 0]⟩
    let r := ((Repository.empty .localDefault .hostDefault).put 1 ownLocator).put 2 sensor
    let calls : List Call :=
      [.resync, .request, .receive 0 (.ok (locatorAnswer 1 RecordHandle.terminator)), .hostDown]
    let y := (start .standard ⟨[]⟩ r .empty).afterAll calls
    r.ownRange.Apart r.hostRange ∧ r.ownRange.contains 2 = true ∧ r.get? 2 = some sensor ∧
      sensor.Bystander ExchangeSettings.standard.fixups ∧ y.repository.get? 2 = some sensor := by
  intro sensor r calls y
  have hranges : r.ownRange.Apart r.hostRange := ⟨by decide, by decide, by decide⟩
  have hget : r.get? 2 = some sensor := Repository.get?_put_self _ _ _
  have hsensor : sensor.Bystander ExchangeSettings.standard.fixups :=
    ⟨by decide, fun f hf => by simp [ExchangeSettings.standard] at hf⟩
  obtain ⟨hspared, -⟩ := own_records_left_alone .standard ⟨[]⟩ r .empty hranges hranges rfl calls
    (by decide : r.ownRange.contains 2 = true) hget hsensor
  refine ⟨hranges, by decide, hget, hsensor, hspared ?_⟩
  rintro ⟨t, ht, -⟩
  exact absurd (Record.locator?_eq_some.mp ht).1 (by decide)

/-- The controller's own locator loses its validity when the host goes down. -/
theorem host_down_marks_own_locator :
    let r := (Repository.empty .localDefault .hostDefault).put 1 ownLocator
    let calls : List Call :=
      [.resync, .request, .receive 0 (.ok (locatorAnswer 1 RecordHandle.terminator)), .hostDown]
    let y := (start .standard ⟨[]⟩ r .empty).afterAll calls
    r.ownRange.Apart r.hostRange ∧ r.ownRange.contains 1 = true ∧ r.get? 1 = some ownLocator ∧
      ownLocator.Bystander ExchangeSettings.standard.fixups ∧
      y.repository.get? 1 = some ownLocator.invalidated ∧ ownLocator.invalidated ≠ ownLocator := by
  intro r calls y
  have hranges : r.ownRange.Apart r.hostRange := ⟨by decide, by decide, by decide⟩
  have hmarked : y.repository.get? 1 = some ownLocator.invalidated := by decide +kernel
  have hother : ownLocator.invalidated ≠ ownLocator := by decide +kernel
  exact ⟨hranges, by decide, Repository.get?_put_self _ _ _, .of_locator rfl, hmarked, hother⟩

end runs
end Exchange
end DescriptorExchange
