import DescriptorExchange.Proofs.Record.StateEffecter
import DescriptorExchange.Proofs.Record.TerminusLocator
import DescriptorExchange.Proofs.Repository.Frame

/-!
Operations that change several records in place, one after another, and end at the first failure. None
ever fails: the records they come to are the ones that have been looked up before, for what has been done
on the way was done under other handles. So each of them comes to one edit of every record it is about.
-/
namespace DescriptorExchange

namespace Record

variable {x : Record} {id : UInt16}

/-- A readable state effecter record of this effecter. -/
def isEffecter (x : Record) (id : UInt16) : Bool :=
  x.type = .stateEffecter && match decodeRecord StateEffecter x.bytes with
    | .ok (_, e) => e.effecterId = id
    | .error _ => false

theorem isEffecter_eq_true : x.isEffecter id = true ↔ x.type = .stateEffecter ∧
    ∃ header e, decodeRecord StateEffecter x.bytes = .ok (header, e) ∧ e.effecterId = id := by
  simp only [isEffecter, Bool.and_eq_true, decide_eq_true_eq]
  apply and_congr_right
  intro _
  cases decodeRecord StateEffecter x.bytes with
  | error e => simp
  | ok found =>
    obtain ⟨header, e⟩ := found
    simp [and_assoc]

end Record

namespace Repository

variable {r s : Repository} {j k : RecordHandle} {e : Entity} {a : Association}

section strip

/-- The readable association records of a range, whoever wrote them. -/
theorem mem_associations {range : HandleRange} {header : RecordHeader} :
    (k, header, a) ∈ r.associations range ↔ ∃ record, r.get? k = some record ∧
      range.contains k = true ∧ record.type = .entityAssociation ∧
      decodeRecord Association record.bytes = .ok (header, a) := by
  simp only [associations, List.mem_filterMap, Prod.exists, mem_inRange]
  constructor
  · rintro ⟨j, record, ⟨hget, hin⟩, hread⟩
    split_ifs at hread with htype
    obtain ⟨found, hfound, heq⟩ := Option.map_eq_some_iff.mp hread
    obtain ⟨rfl, rfl, rfl⟩ : j = k ∧ found.1 = header ∧ found.2 = a := by
      simpa [Prod.ext_iff] using heq
    exact ⟨record, hget, hin, htype, toOption_eq_some.mp hfound⟩
  · rintro ⟨record, hget, hin, htype, hd⟩
    exact ⟨k, record, ⟨hget, hin⟩, by simp [htype, toOption_eq_some.mpr hd]⟩

theorem associations_pairwise (r : Repository) (range : HandleRange) :
    (r.associations range).Pairwise fun a b => a.1 < b.1 := by
  have hin : (r.inRange range).Pairwise fun a b => a.1 < b.1 := r.toList_pairwise.filter _
  refine List.Pairwise.filterMap _ ?_ hin
  rintro ⟨j, x⟩ ⟨k, y⟩ hjk ⟨j', u⟩ hu ⟨k', v⟩ hv
  dsimp only at hu hv
  split_ifs at hu hv
  obtain ⟨_, -, hu⟩ := Option.map_eq_some_iff.mp hu
  obtain ⟨_, -, hv⟩ := Option.map_eq_some_iff.mp hv
  obtain ⟨rfl, -⟩ := Prod.mk.inj hu
  obtain ⟨rfl, -⟩ := Prod.mk.inj hv
  exact hjk

theorem mem_naming {range : HandleRange} {entry : RecordHandle × RecordHeader × Association} :
    entry ∈ r.naming e range ↔
      entry ∈ r.associations range ∧ (entry.2.2.container = e ∨ e ∈ entry.2.2.children) := by
  simp [naming]

theorem naming_pairwise (r : Repository) (e : Entity) (range : HandleRange) :
    (r.naming e range).Pairwise fun a b => a.1 < b.1 :=
  (r.associations_pairwise range).filter _

/-- The edit by which an entity goes from one association record. -/
def stripEdit (e : Entity) (r : Repository) (entry : RecordHandle × RecordHeader × Association) :
    Repository :=
  if entry.2.2.container = e then r.erase entry.1 else r.dropChild entry.1 entry.2.1 entry.2.2 e

@[simp] theorem stripEdit_ownRange (e : Entity)
    (entry : RecordHandle × RecordHeader × Association) :
    (stripEdit e r entry).ownRange = r.ownRange := by
  unfold stripEdit
  split_ifs <;> simp

@[simp] theorem stripEdit_hostRange (e : Entity)
    (entry : RecordHandle × RecordHeader × Association) :
    (stripEdit e r entry).hostRange = r.hostRange := by
  unfold stripEdit
  split_ifs <;> simp

theorem get?_stripEdit_ne (e : Entity) (r : Repository)
    (entry : RecordHandle × RecordHeader × Association)
    (j : RecordHandle) (hj : j ≠ entry.1) : (stripEdit e r entry).get? j = r.get? j := by
  unfold stripEdit
  split_ifs
  · rw [get?_erase, if_neg hj]
  · exact get?_dropChild_ne _ _ _ hj

theorem get?_stripEdit_local (e : Entity) (r s : Repository)
    (entry : RecordHandle × RecordHeader × Association) (h : r.get? entry.1 = s.get? entry.1) :
    (stripEdit e r entry).get? entry.1 = (stripEdit e s entry).get? entry.1 := by
  simp only [stripEdit, dropChild]
  split_ifs
  · simp [get?_erase]
  · simp [get?_erase]
  · rw [putAssociation_eq, putAssociation_eq, h]
    cases hs : s.get? entry.1 with
    | none => simp [h, hs]
    | some record => simp only [get?_put_self]

theorem association_congr (hget : s.get? k = r.get? k) : s.association k = r.association k := by
  rw [association, association, hget]

/-- Taking an entity out of records that can be read and name it, each under a handle of its own,
comes to the end of the list. -/
theorem stripEach_eq (hits : List (RecordHandle × RecordHeader × Association))
    (hdistinct : hits.Pairwise fun a b => a.1 < b.1)
    (hread : ∀ hit ∈ hits, r.association hit.1 = .ok hit.2)
    (hnames : ∀ hit ∈ hits, hit.2.2.container = e ∨ e ∈ hit.2.2.children) :
    stripEach e (hits.map fun (handle, _, a) => (handle, a.container = e)) r =
      (hits.foldl (stripEdit e) r, .ok (hits.map Prod.fst)) := by
  induction hits generalizing r with
  | nil => rfl
  | cons hit rest ih =>
    obtain ⟨k, header, a⟩ := hit
    obtain ⟨hbehind, hdistinct⟩ := List.pairwise_cons.mp hdistinct
    -- The records that are still to come are as they were.
    have hrest := ih (r := stripEdit e r (k, header, a)) hdistinct (fun hit hhit => by
      have hne : hit.1 ≠ k := (UInt32.ne_of_lt (hbehind hit hhit)).symm
      rw [association_congr (get?_stripEdit_ne e r _ _ hne)]
      exact hread hit (List.mem_cons_of_mem _ hhit))
      fun hit hhit => hnames hit (List.mem_cons_of_mem _ hhit)
    rw [List.foldl_cons, List.map_cons, List.map_cons]
    by_cases hcontainer : a.container = e
    · have hedit : stripEdit e r (k, header, a) = r.erase k := if_pos hcontainer
      rw [hedit] at hrest ⊢
      simp only [stripEach, hcontainer, decide_true, if_true, hrest, Except.map]
    · have hmem := (hnames _ List.mem_cons_self).resolve_left hcontainer
      have hremove : r.removeChild k e = .ok (r.dropChild k header a e, true) :=
        removeChild_eq_ok.mpr ⟨header, a, hread _ List.mem_cons_self, .inl ⟨hmem, rfl, rfl⟩⟩
      have hedit : stripEdit e r (k, header, a) = r.dropChild k header a e := if_neg hcontainer
      rw [hedit] at hrest ⊢
      simp only [stripEach, hcontainer, decide_false, Bool.false_eq_true, if_false, hremove, if_true,
        hrest, Except.map]

/-- Stripping an entity edits each record that names it. -/
theorem strip_eq (r : Repository) (e : Entity) (range : HandleRange) : r.strip e range =
    ((r.naming e range).foldl (stripEdit e) r, .ok ((r.naming e range).map Prod.fst)) := by
  refine stripEach_eq _ (r.naming_pairwise e range) (fun hit hhit => ?_)
    fun hit hhit => (mem_naming.mp hhit).2
  obtain ⟨k, header, a⟩ := hit
  obtain ⟨record, hget, -, -, hdecode⟩ := mem_associations.mp (mem_naming.mp hhit).1
  simp [association, hget, hdecode, Except.mapError]

/-- What removing a record and taking a child out of a readable one preserve, stripping preserves. -/
theorem strip_induction {p : Repository → Prop} {range : HandleRange}
    (herase : ∀ s k, p s → p (s.erase k))
    (hdrop : ∀ s k bytes header a, decodeRecord Association bytes = .ok (header, a) →
      p s → p (s.dropChild k header a e)) (hr : p r) : p (r.strip e range).1 := by
  rw [strip_eq]
  refine List.foldlRecOn (motive := p) _ _ hr fun s hs entry hentry => ?_
  obtain ⟨k, header, a⟩ := entry
  obtain ⟨record, -, -, -, hdecode⟩ := mem_associations.mp (mem_naming.mp hentry).1
  unfold stripEdit
  split_ifs
  · exact herase s k hs
  · exact hdrop s k record.bytes header a hdecode hs

@[simp] theorem strip_ownRange (e : Entity) (range : HandleRange) :
    (r.strip e range).1.ownRange = r.ownRange := by
  rw [strip_eq]
  exact foldl_same ownRange (fun _ => stripEdit_ownRange e) _ r

@[simp] theorem strip_hostRange (e : Entity) (range : HandleRange) :
    (r.strip e range).1.hostRange = r.hostRange := by
  rw [strip_eq]
  exact foldl_same hostRange (fun _ => stripEdit_hostRange e) _ r

theorem get?_strip_of_not_mem (e : Entity) (range : HandleRange)
    (hj : j ∉ (r.naming e range).map Prod.fst) : (r.strip e range).1.get? j = r.get? j := by
  rw [strip_eq]
  exact get?_foldl_ne (get?_stripEdit_ne e) hj r

end strip

section effecter

variable {id c : UInt16}

theorem setEffecterContainer_def (r : Repository) (id c : UInt16) : r.setEffecterContainer id c =
    match (r.inRange r.ownRange).find? fun entry => entry.2.isEffecter id with
    | none => (r, .ok none)
    | some (handle, record) =>
      match StateEffecter.setContainer c record.bytes with
      | .error cause => (r, .error (.malformed cause))
      | .ok bytes =>
        if bytes = record.bytes then (r, .ok none)
        else (r.put handle { record with bytes }, .ok (some handle)) := rfl

/-- Nothing changes, or a readable effecter gets the container. -/
theorem setEffecterContainer_eq (r : Repository) (id c : UInt16) :
    r.setEffecterContainer id c = (r, .ok none) ∨
      ∃ k record bytes, r.get? k = some record ∧ r.ownRange.contains k = true ∧
        record.type = .stateEffecter ∧ StateEffecter.setContainer c record.bytes = .ok bytes ∧
        r.setEffecterContainer id c = (r.put k { record with bytes }, .ok (some k)) := by
  rw [setEffecterContainer_def]
  cases hfind : (r.inRange r.ownRange).find? fun entry => entry.2.isEffecter id with
  | none => exact .inl rfl
  | some found =>
    obtain ⟨k, record⟩ := found
    obtain ⟨hget, hin⟩ := mem_inRange.mp (List.mem_of_find?_eq_some hfind)
    have hit : record.isEffecter id = true := by simpa using List.find?_some hfind
    obtain ⟨htype, header, e, hdecode, -⟩ := Record.isEffecter_eq_true.mp hit
    obtain ⟨bytes, hset, -⟩ := StateEffecter.setContainer_spec hdecode c
    simp only [hset]
    split_ifs
    · exact .inl rfl
    · exact .inr ⟨k, record, bytes, hget, hin, htype, hset, rfl⟩

theorem setEffecterContainer_ok (r : Repository) (id c : UInt16) :
    ∃ changed, (r.setEffecterContainer id c).2 = .ok changed := by
  rcases r.setEffecterContainer_eq id c with h | ⟨k, record, bytes, -, -, -, -, h⟩
  · exact ⟨none, by rw [h]⟩
  · exact ⟨some k, by rw [h]⟩

theorem get?_setEffecterContainer_of_ne (hj : (r.setEffecterContainer id c).2 ≠ .ok (some j)) :
    (r.setEffecterContainer id c).1.get? j = r.get? j := by
  rcases r.setEffecterContainer_eq id c with h | ⟨k, record, bytes, -, -, -, -, h⟩
  · rw [h]
  · rw [h] at hj ⊢
    exact r.get?_put_ne _ fun he => hj (by rw [he])

end effecter

/-- Writing records one after another where each is told by its handle. -/
theorem get?_foldl_put {f : RecordHandle → Option Record} {changes : List (RecordHandle × Record)}
    (hchanges : ∀ change ∈ changes, f change.1 = some change.2) (s : Repository) (k : RecordHandle) :
    (changes.foldl (fun s change => s.put change.1 change.2) s).get? k =
      if k ∈ changes.map Prod.fst then f k else s.get? k := by
  induction changes generalizing s with
  | nil => rfl
  | cons change rest ih =>
    rw [List.foldl_cons, ih (fun c hc => hchanges c (List.mem_cons_of_mem _ hc)), get?_put]
    have hfirst := hchanges change List.mem_cons_self
    simp only [List.map_cons, List.mem_cons]
    by_cases hk : k = change.1
    · subst hk
      simp [hfirst]
    · simp only [hk, false_or, if_false]

section validity

variable {terminusHandle : UInt16} {valid : Bool} {x : Record}

/-- The bytes of a locator record of this terminus with its validity changed, if that is a change. -/
def revalidated? (terminusHandle : UInt16) (valid : Bool) (record : Record) : Option Bytes :=
  if record.type = .terminusLocator then
    match decodeRecord TerminusLocator record.bytes with
    | .ok (_, t) =>
      if t.terminusHandle = terminusHandle ∧ t.valid ≠ valid then
        (TerminusLocator.setValidity valid record.bytes).toOption
      else none
    | .error _ => none
  else none

theorem revalidated?_eq_some {bytes : Bytes} : revalidated? terminusHandle valid x = some bytes ↔
    x.type = .terminusLocator ∧
      (∃ header t, decodeRecord TerminusLocator x.bytes = .ok (header, t) ∧
        t.terminusHandle = terminusHandle ∧ t.valid ≠ valid) ∧
      TerminusLocator.setValidity valid x.bytes = .ok bytes := by
  have htoOption : (TerminusLocator.setValidity valid x.bytes).toOption = some bytes ↔
      TerminusLocator.setValidity valid x.bytes = .ok bytes := by
    cases TerminusLocator.setValidity valid x.bytes <;> simp [Except.toOption]
  unfold revalidated?
  split_ifs with htype
  · cases hread : decodeRecord TerminusLocator x.bytes with
    | error e => simp
    | ok found =>
      obtain ⟨header, t⟩ := found
      dsimp only
      split_ifs with hchange
      · rw [htoOption]
        exact ⟨fun hset => ⟨htype, ⟨header, t, rfl, hchange⟩, hset⟩, fun h => h.2.2⟩
      · refine iff_of_false (by simp) ?_
        rintro ⟨-, ⟨_, _, heq, hother⟩, -⟩
        obtain ⟨rfl, rfl⟩ := Prod.mk.inj (Except.ok.inj heq)
        exact hchange hother
  · exact iff_of_false (by simp) fun h => htype h.1

/-- The record with its validity changed, if it is a locator of the terminus that has another one. -/
def revalidated (terminusHandle : UInt16) (valid : Bool) (x : Record) : Record :=
  { x with bytes := (revalidated? terminusHandle valid x).getD x.bytes }

theorem revalidated_of_none (h : revalidated? terminusHandle valid x = none) :
    revalidated terminusHandle valid x = x := by
  rw [revalidated, h, Option.getD_none]

theorem revalidated_of_some {bytes : Bytes} (h : revalidated? terminusHandle valid x = some bytes) :
    revalidated terminusHandle valid x = { x with bytes } := by
  rw [revalidated, h, Option.getD_some]

theorem revalidated_of_type (htype : x.type ≠ .terminusLocator) :
    revalidated terminusHandle valid x = x :=
  revalidated_of_none (if_neg htype)

theorem revalidated_cases (terminusHandle : UInt16) (valid : Bool) (x : Record) :
    revalidated terminusHandle valid x = x ∨ ∃ bytes, x.type = .terminusLocator ∧
      TerminusLocator.setValidity valid x.bytes = .ok bytes ∧
      revalidated terminusHandle valid x = { x with bytes } := by
  cases hbytes : revalidated? terminusHandle valid x with
  | none => exact .inl (revalidated_of_none hbytes)
  | some bytes =>
    obtain ⟨htype, -, hset⟩ := revalidated?_eq_some.mp hbytes
    exact .inr ⟨bytes, htype, hset, revalidated_of_some hbytes⟩

/-- What a change of validity writes, under the handles of some records. -/
def validityChanges (terminusHandle : UInt16) (valid : Bool) (entries : List (RecordHandle × Record)) :
    List (RecordHandle × Record) :=
  entries.filterMap fun entry =>
    (revalidated? terminusHandle valid entry.2).map fun bytes => (entry.1, { entry.2 with bytes })

/-- A locator record that can be read has a validity to overwrite. -/
theorem validateEach_cons (terminusHandle : UInt16) (valid : Bool) (entry : RecordHandle × Record)
    (rest : List (RecordHandle × Record)) (r : Repository) :
    validateEach terminusHandle valid (entry :: rest) r =
      match revalidated? terminusHandle valid entry.2 with
      | none => validateEach terminusHandle valid rest r
      | some bytes =>
        let (s, changed) := validateEach terminusHandle valid rest (r.put entry.1 { entry.2 with bytes })
        (s, changed.map fun changed => entry.1 :: changed) := by
  obtain ⟨k, record⟩ := entry
  simp only [validateEach, revalidated?]
  by_cases htype : record.type = .terminusLocator
  · cases hdecode : decodeRecord TerminusLocator record.bytes with
    | error cause => simp [htype]
    | ok found =>
      obtain ⟨header, t⟩ := found
      obtain ⟨bytes, hset, -⟩ := TerminusLocator.setValidity_spec hdecode valid
      by_cases hchange : t.terminusHandle ≠ terminusHandle ∨ t.valid = valid
      · have hkept : ¬(t.terminusHandle = terminusHandle ∧ t.valid ≠ valid) := by tauto
        simp [htype, hchange, hkept]
      · have hchanged : t.terminusHandle = terminusHandle ∧ t.valid ≠ valid := by tauto
        simp [htype, hchanged, hset, Except.toOption, put]
  · simp [htype]

theorem validateEach_eq (terminusHandle : UInt16) (valid : Bool)
    (entries : List (RecordHandle × Record)) (r : Repository) :
    validateEach terminusHandle valid entries r =
      ((validityChanges terminusHandle valid entries).foldl (fun s change => s.put change.1 change.2) r,
        .ok ((validityChanges terminusHandle valid entries).map Prod.fst)) := by
  induction entries generalizing r with
  | nil => rfl
  | cons entry rest ih =>
    rw [validateEach_cons]
    unfold validityChanges at ih ⊢
    cases hbytes : revalidated? terminusHandle valid entry.2 with
    | none => simp [hbytes, ih]
    | some bytes => simp [hbytes, ih, Except.map]

@[simp] theorem setLocatorValidity_ownRange (r : Repository) (terminusHandle : UInt16) (valid : Bool) :
    (r.setLocatorValidity terminusHandle valid).1.ownRange = r.ownRange := by
  rw [setLocatorValidity, validateEach_eq]
  exact foldl_same ownRange (fun _ _ => put_ownRange ..) _ r

@[simp] theorem setLocatorValidity_hostRange (r : Repository) (terminusHandle : UInt16) (valid : Bool) :
    (r.setLocatorValidity terminusHandle valid).1.hostRange = r.hostRange := by
  rw [setLocatorValidity, validateEach_eq]
  exact foldl_same hostRange (fun _ _ => put_hostRange ..) _ r

theorem setLocatorValidity_ok (r : Repository) (terminusHandle : UInt16) (valid : Bool) :
    ∃ changed, (r.setLocatorValidity terminusHandle valid).2 = .ok changed := by
  rw [setLocatorValidity, validateEach_eq]
  exact ⟨_, rfl⟩

/-- Each record is there as before, but for the validity of the locators of the terminus. -/
theorem get?_setLocatorValidity (r : Repository) (terminusHandle : UInt16) (valid : Bool)
    (k : RecordHandle) : (r.setLocatorValidity terminusHandle valid).1.get? k =
      (r.get? k).map (revalidated terminusHandle valid) := by
  let changes := validityChanges terminusHandle valid r.toList
  have hset : (r.setLocatorValidity terminusHandle valid).1 =
      changes.foldl (fun s change => s.put change.1 change.2) r := by
    rw [setLocatorValidity, validateEach_eq]
  have hmem (change : RecordHandle × Record) : change ∈ changes ↔ ∃ x bytes,
      r.get? change.1 = some x ∧ revalidated? terminusHandle valid x = some bytes ∧
        change.2 = { x with bytes } := by
    simp only [changes, validityChanges, List.mem_filterMap, Option.map_eq_some_iff, Prod.exists,
      mem_toList]
    constructor
    · rintro ⟨j, x, hx, bytes, hbytes, rfl⟩
      exact ⟨x, bytes, hx, hbytes, rfl⟩
    · rintro ⟨x, bytes, hx, hbytes, hchange⟩
      exact ⟨change.1, x, hx, bytes, hbytes, Prod.ext rfl hchange.symm⟩
  rw [hset, get?_foldl_put (f := fun j => (r.get? j).map (revalidated terminusHandle valid))]
  · split_ifs with hk
    · rfl
    · cases hx : r.get? k with
      | none => rfl
      | some x =>
        cases hbytes : revalidated? terminusHandle valid x with
        | none => rw [Option.map_some, revalidated_of_none hbytes]
        | some bytes =>
          refine absurd (List.mem_map.mpr ⟨(k, { x with bytes }), ?_, rfl⟩) hk
          exact (hmem _).mpr ⟨x, bytes, hx, hbytes, rfl⟩
  · intro change hchange
    obtain ⟨x, bytes, hx, hbytes, heq⟩ := (hmem change).mp hchange
    rw [hx, Option.map_some, revalidated_of_some hbytes, heq]

/-- Records that are no locators stay as they are. -/
theorem get?_setLocatorValidity_of_type (r : Repository) (terminusHandle : UInt16) (valid : Bool)
    (htype : x.type ≠ .terminusLocator) :
    (r.setLocatorValidity terminusHandle valid).1.get? k = some x ↔ r.get? k = some x := by
  rw [get?_setLocatorValidity, Option.map_eq_some_iff]
  constructor
  · rintro ⟨old, hold, rfl⟩
    rw [hold, revalidated_of_type (x := old) htype]
  · exact fun hget => ⟨x, hget, revalidated_of_type htype⟩

end validity

end Repository
end DescriptorExchange
