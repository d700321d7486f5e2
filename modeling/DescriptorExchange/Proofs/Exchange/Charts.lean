import DescriptorExchange.Proofs.Exchange.Bystanders
import DescriptorExchange.Proofs.Exchange.Staleness

/-!
The stored locators of the host by the imports that hold them. Where imports are undone, their locators
go and with each of them the entry of its terminus. Where a record is stored, it is the locator that the
host has sent.
-/
namespace DescriptorExchange.Exchange

variable {x y z : Exchange} {h j k : RecordHandle} {gone more : List RecordHandle} {i : UInt16}
  {record : Bytes} {t : TerminusLocator}

section charts

/-- Some stored record of the host is a locator of the terminus. -/
def Locates (x : Exchange) (i : UInt16) : Prop :=
  ∃ k record t, x.settings.hostRange.contains k = true ∧ x.repository.get? k = some record ∧
    record.locator? = some t ∧ t.terminusHandle = i

/-- The terminus of the locator that an import has stored. -/
def terminus? (x : Exchange) (h : RecordHandle) : Option UInt16 :=
  (((x.stored? h).bind x.repository.get?).bind Record.locator?).map TerminusLocator.terminusHandle

/-- Each import has its stored record to itself, and the locators of the host can be read and are
those that imports have stored. -/
structure Charted (x : Exchange) : Prop where
  undoable : x.Undoable
  held : ∀ {h k}, x.stored? h = some k → ∃ record, x.repository.get? k = some record
  alone : ∀ {h j k}, x.stored? h = some k → x.stored? j = some k → h = j
  located : ∀ {k record}, x.settings.hostRange.contains k = true →
    x.repository.get? k = some record → record.type = .terminusLocator →
      (∃ t, record.locator? = some t) ∧ ∃ h, x.stored? h = some k

theorem terminus?_of_stored (h : x.stored? j = some k) : x.terminus? j =
    ((x.repository.get? k).bind Record.locator?).map TerminusLocator.terminusHandle := by
  rw [terminus?, h, Option.bind_some]

theorem terminus?_of_none (h : x.stored? j = none) : x.terminus? j = none := by
  rw [terminus?, h, Option.bind_none, Option.bind_none, Option.map_none]

theorem Charted.in_range (hx : x.Charted) (hk : x.stored? h = some k) :
    x.settings.hostRange.contains k = true :=
  hx.undoable.stored (stored?_eq_some.mp hk)

theorem locates_of_read (hin : x.settings.hostRange.contains k = true)
    (h : (x.repository.get? k).bind Record.locator? = some t) : x.Locates t.terminusHandle := by
  obtain ⟨record, hget, ht⟩ := Option.bind_eq_some_iff.mp h
  exact ⟨k, record, t, hin, hget, ht, rfl⟩

theorem Charted.locates (hx : x.Charted) : x.Locates i ↔ ∃ h, x.terminus? h = some i := by
  constructor
  · rintro ⟨k, record, t, hin, hget, ht, rfl⟩
    obtain ⟨-, h, hk⟩ := hx.located hin hget (Record.locator?_eq_some.mp ht).1
    exact ⟨h, by rw [terminus?_of_stored hk, hget, Option.bind_some, ht, Option.map_some]⟩
  · rintro ⟨h, hi⟩
    cases hk : x.stored? h with
    | none => simp [terminus?_of_none hk] at hi
    | some k =>
      rw [terminus?_of_stored hk] at hi
      obtain ⟨t, ht, rfl⟩ := Option.map_eq_some_iff.mp hi
      exact locates_of_read (hx.in_range hk) ht

end charts

section withdrawing

/-- The record of an import that was not undone is still the same. -/
theorem Sheds.same (hx : x.Charted) (hxy : Sheds x y gone) (hk : y.stored? h = some k) :
    x.stored? h = some k ∧ y.repository.get? k = x.repository.get? k := by
  obtain ⟨hstored, hnot⟩ := (hxy.stored h k).mp hk
  refine ⟨hstored, hxy.kept k (hx.in_range hstored) fun j hj hjk => hnot ?_⟩
  rwa [hx.alone hstored hjk]

theorem Sheds.charted (hx : x.Charted) (hxy : Sheds x y gone) (hy : y.Undoable) : y.Charted where
  undoable := hy
  held hk := by
    obtain ⟨hstored, hget⟩ := hxy.same hx hk
    exact hget ▸ hx.held hstored
  alone hk hj := hx.alone (hxy.same hx hk).1 (hxy.same hx hj).1
  located {k record} hin hget htype := by
    rw [hxy.settings] at hin
    obtain ⟨hbefore, hstill⟩ := hxy.of_present hin hget
    obtain ⟨hread, h, hk⟩ := hx.located hin hbefore htype
    exact ⟨hread, h, hstill h hk⟩

theorem Sheds.terminus? (hx : x.Charted) (hxy : Sheds x y gone) (h : RecordHandle) :
    y.terminus? h = if h ∈ gone then none else x.terminus? h := by
  have hstored : y.stored? h = if h ∈ gone then none else x.stored? h := by
    ext k
    rw [hxy.stored]
    split_ifs with hmem <;> simp [hmem]
  cases hk : y.stored? h with
  | none =>
    rw [terminus?_of_none hk]
    split_ifs with hmem
    · rfl
    · rw [if_neg hmem, hk] at hstored
      exact (terminus?_of_none hstored.symm).symm
  | some k =>
    obtain ⟨hold, hget⟩ := hxy.same hx hk
    rw [if_neg ((hxy.stored h k).mp hk).2, terminus?_of_stored hk, terminus?_of_stored hold, hget]

/-- From `x` to `y` some imports were undone, and the termini of their locators forgotten. -/
structure Unlearns (x y : Exchange) (gone : List RecordHandle) : Prop where
  sheds : Sheds x y gone
  termini : ∀ i, i ∈ y.termini ↔ i ∈ x.termini ∧ ∀ h ∈ gone, x.terminus? h ≠ some i

namespace Unlearns

theorem of_sheds (hxy : Sheds x y []) (htermini : y.termini = x.termini) : Unlearns x y [] :=
  ⟨hxy, fun i => by simp [htermini]⟩

theorem trans (hx : x.Charted) (hxy : Unlearns x y gone) (hyz : Unlearns y z more) :
    Unlearns x z (gone ++ more) := by
  refine ⟨hxy.sheds.trans hyz.sheds, fun i => ?_⟩
  rw [hyz.termini, hxy.termini, and_assoc, List.forall_mem_append]
  refine and_congr_right fun _ => and_congr_right fun hgone => forall₂_congr fun h _ => ?_
  rw [hxy.sheds.terminus? hx]
  split_ifs with hmem
  · simpa using hgone h hmem
  · rfl

theorem aside (h : Unlearns x y gone) (hsettings : z.settings = y.settings)
    (hrepository : z.repository = y.repository) (himports : z.imports = y.imports)
    (htermini : z.termini = y.termini) : Unlearns x z gone :=
  ⟨h.sheds.aside hsettings hrepository himports, fun i => by rw [htermini, h.termini]⟩

theorem same (hx : x.Parted) (hsettings : y.settings = x.settings)
    (hrepository : y.repository = x.repository) (himports : y.imports = x.imports)
    (htermini : y.termini = x.termini) : Unlearns x y [] :=
  of_sheds ((Sheds.refl hx).aside hsettings hrepository himports) htermini

end Unlearns

/-- With a locator that is dropped the entry of its terminus goes. -/
theorem mem_termini_dropStored (x : Exchange) (k : RecordHandle) :
    i ∈ (x.dropStored k).1.termini ↔ i ∈ x.termini ∧
      ((x.repository.get? k).bind Record.locator?).map TerminusLocator.terminusHandle ≠ some i := by
  unfold dropStored
  cases hget : x.repository.get? k with
  | none => simp
  | some record =>
    dsimp only
    split_ifs with hsensor hlocator
    · have hnone : record.locator? = none := by
        rw [Record.locator?, hsensor, if_neg (by decide)]
      simp [hnone]
    · rw [Option.bind_some, Record.locator?, if_pos hlocator, locatorIn?]
      cases decodeRecord TerminusLocator record.bytes with
      | error e => simp [Except.toOption]
      | ok found =>
        simp only [Std.ExtTreeMap.mem_erase, Except.toOption, Option.map_some, ne_eq,
          Option.some.injEq, Std.LawfulEqCmp.compare_eq_iff_eq]
        exact and_comm
    · simp [Record.locator?, hlocator]

theorem dropImport_unlearns (hx : x.Charted) (h : RecordHandle) :
    Unlearns x (x.dropImport h).1 [h] := by
  refine ⟨dropImport_sheds hx.undoable.parted h, fun i => ?_⟩
  simp only [List.mem_singleton, forall_eq]
  simp only [dropImport]
  split
  next hi =>
    have hnone : x.terminus? h = none := terminus?_of_none (by simp [stored?, hi])
    simp [hnone]
  next k hi =>
    rw [terminus?_of_stored (stored?_eq_some.mpr hi)]
    exact mem_termini_dropStored _ k
  next parent children k hi =>
    have hnone : x.terminus? h = none := terminus?_of_none (by simp [stored?, hi])
    have htermini := unmergeAll_termini k children { x with imports := x.imports.erase h }
    split
    next heq =>
      rw [heq] at htermini
      simpa [hnone] using iff_of_eq (congrArg (i ∈ ·) htermini)
    next heq =>
      rw [heq] at htermini
      simpa [hnone] using iff_of_eq (congrArg (i ∈ ·) htermini)

theorem dropImports_unlearns (hx : x.Charted) (handles : List RecordHandle) :
    Unlearns x (dropImports handles x).1 handles := by
  induction handles generalizing x with
  | nil => exact .of_sheds (.refl hx.undoable.parted) rfl
  | cons h rest ih =>
    obtain ⟨y, ⟨touched, sensor⟩, hfirst, hy, -⟩ := hx.undoable.dropImport h
    have hxy := dropImport_unlearns hx h
    rw [hfirst] at hxy
    obtain ⟨z, ⟨later, sensors⟩, hrest, -⟩ := hy.dropImports rest
    have hyz := ih (hxy.sheds.charted hx hy)
    rw [hrest] at hyz
    simp only [dropImports, hfirst, hrest]
    exact hxy.trans hx hyz

theorem forget_unlearns (hx : x.Charted) (handles : List RecordHandle) :
    Unlearns x (x.forget handles).1 handles := by
  have hdropped := dropImports_unlearns hx handles
  unfold forget
  split
  next heq => rwa [heq] at hdropped
  next y touched sensors heq =>
    rw [heq] at hdropped
    cases sensors
    · exact hdropped
    · exact hdropped.aside rfl rfl rfl rfl

theorem merge_termini (x : Exchange) (h : RecordHandle) (a : Association) :
    (x.merge h a).1.termini = x.termini := by
  refine merge_induction (p := fun y => y.termini = x.termini) rfl rfl
    (fun node parent y child hy => ?_) fun _ _ hy => hy
  exact mergeChild_induction (p := fun z => z.termini = x.termini) hy
    (fun _ _ _ => (grow_termini ..).trans hy) (fun _ _ _ _ _ _ hz => hz) fun _ _ hz => hz

end withdrawing

section storing

theorem store_cases (x : Exchange) (h : RecordHandle) (record : Bytes) :
    (∃ e, x.store h record = (x, .error e)) ∨
      ∃ y, x.store h record = (y, .ok ()) ∧ Stores x y h record ∧ y.termini = x.termini := by
  unfold store
  cases hinsert : x.repository.insert .host record with
  | error e => exact .inl ⟨e, rfl⟩
  | ok made =>
    obtain ⟨repository, k⟩ := made
    exact .inr ⟨_, rfl, ⟨rfl, k, hinsert, rfl⟩, rfl⟩

/-- A stored record is filed under a free handle as the locator that it is. -/
theorem Stores.locator (hx : x.Parted) (hxy : Stores x y h record) : ∃ k new,
    x.repository.get? k = none ∧ new.locator? = locatorIn? record ∧ new.CopyOf record ∧
      (∀ j, y.repository.get? j = if j = k then some new else x.repository.get? j) ∧
      ∀ j, y.stored? j = if j = h then some k else x.stored? j := by
  obtain ⟨k, new, -, hfree, -, hcopy, hget, hstored⟩ := hxy.spec hx
  obtain ⟨k', hinsert, himports⟩ := hxy.made
  have hsame : y.stored? h = some k' := by
    rw [stored?_eq_some, himports, imports_insert, if_pos rfl]
  rw [hstored, if_pos rfl] at hsame
  obtain rfl := Option.some.inj hsame
  exact ⟨k, new, hfree, Repository.locator?_of_insert hinsert ((hget k).trans (if_pos rfl)), hcopy,
    hget, hstored⟩

/-- The new handle is none that an import has stored a record under. -/
theorem Charted.ne_of_free (hx : x.Charted) (hfree : x.repository.get? k = none)
    (hj : x.stored? h = some j) : j ≠ k := by
  obtain ⟨record, hget⟩ := hx.held hj
  rintro rfl
  simp [hfree] at hget

theorem Stores.terminus? (hx : x.Charted) (hxy : Stores x y h record) (j : RecordHandle) :
    y.terminus? j = if j = h then (locatorIn? record).map TerminusLocator.terminusHandle
      else x.terminus? j := by
  obtain ⟨k, new, hfree, hlocator, -, hget, hstored⟩ := hxy.locator hx.undoable.parted
  by_cases hj : j = h
  · have hk : y.stored? j = some k := (hstored j).trans (if_pos hj)
    rw [if_pos hj, terminus?_of_stored hk, hget, if_pos rfl, Option.bind_some, hlocator]
  · have hsame : y.stored? j = x.stored? j := (hstored j).trans (if_neg hj)
    rw [if_neg hj]
    cases hl : x.stored? j with
    | none => rw [terminus?_of_none hl, terminus?_of_none (hsame.trans hl)]
    | some l =>
      rw [terminus?_of_stored hl, terminus?_of_stored (hsame.trans hl), hget,
        if_neg (hx.ne_of_free hfree hl)]

theorem Stores.charted (hx : x.Charted) (hnone : x.stored? h = none) (hxy : Stores x y h record)
    (hy : y.Undoable) {header : RecordHeader} {body : Bytes}
    (hsplit : RecordHeader.split record = .ok (header, body))
    (hkind : header.type = .terminusLocator → ∃ t, locatorIn? record = some t) : y.Charted := by
  obtain ⟨k, new, hfree, hlocator, hcopy, hget, hstored⟩ := hxy.locator hx.undoable.parted
  refine ⟨hy, fun {j l} hl => ?_, fun {i j l} hi hj => ?_, fun {l held} hin hheld htype => ?_⟩
  · rw [hstored] at hl
    rw [hget]
    split_ifs at hl with hj
    · obtain rfl := Option.some.inj hl
      exact ⟨new, if_pos rfl⟩
    · rw [if_neg (hx.ne_of_free hfree hl)]
      exact hx.held hl
  · rw [hstored] at hi hj
    split_ifs at hi hj with heq heq'
    · exact heq.trans heq'.symm
    · exact absurd (Option.some.inj hi).symm (hx.ne_of_free hfree hj)
    · exact absurd (Option.some.inj hj).symm (hx.ne_of_free hfree hi)
    · exact hx.alone hi hj
  · rw [hxy.settings] at hin
    rw [hget] at hheld
    split_ifs at hheld with heq
    · obtain rfl := Option.some.inj hheld
      obtain ⟨found, body', hsplit', hnew⟩ := hcopy.type
      rw [hsplit, Except.ok.injEq, Prod.mk.injEq] at hsplit'
      refine ⟨hlocator ▸ hkind (hsplit'.1 ▸ hnew ▸ htype), h, ?_⟩
      rw [hstored, if_pos rfl, heq]
    · obtain ⟨hread, j, hj⟩ := hx.located hin hheld htype
      refine ⟨hread, j, (hstored j).trans ((if_neg ?_).trans hj)⟩
      rintro rfl
      simp [hnone] at hj

end storing

end DescriptorExchange.Exchange
