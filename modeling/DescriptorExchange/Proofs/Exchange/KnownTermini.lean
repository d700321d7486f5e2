import DescriptorExchange.Proofs.Exchange.Charts
import DescriptorExchange.Proofs.Splits

/-!
The map of termini and the stored locators. An entry comes with a locator and goes with a locator, but
entries are kept by terminus and locators by handle. So the two disagree about a terminus in two ways
only: its locator could not be stored, or one of several locators of it went and took the entry along.
-/
namespace DescriptorExchange

/-- The record is a locator of the terminus. -/
def LocatorOf (record : Bytes) (i : UInt16) : Prop :=
  ∃ t, locatorIn? record = some t ∧ t.terminusHandle = i

namespace Exchange

variable {x y z : Exchange} {h : RecordHandle} {gone : List RecordHandle} {i : UInt16}
  {record : Bytes} {failed : Prop} {call : Call} {calls : List Call}

section entering

/-- Some of the stored locators of a terminus go, and its entry goes with each of them. -/
def Ebbs (i : UInt16) (x y : Exchange) : Prop :=
  ∃ gone : List RecordHandle, (∀ h, y.terminus? h = some i ↔ x.terminus? h = some i ∧ h ∉ gone) ∧
    (i ∈ y.termini ↔ i ∈ x.termini ∧ ∀ h ∈ gone, x.terminus? h ≠ some i)

theorem Unlearns.ebbs (hx : x.Charted) (hxy : Unlearns x y gone) (i : UInt16) : Ebbs i x y := by
  refine ⟨gone, fun h => ?_, hxy.termini i⟩
  rw [hxy.sheds.terminus? hx]
  split_ifs with hmem <;> simp [hmem]

theorem Ebbs.trans (hxy : Ebbs i x y) (hyz : Ebbs i y z) : Ebbs i x z := by
  obtain ⟨gone, hlocators, hentry⟩ := hxy
  obtain ⟨more, hlocators', hentry'⟩ := hyz
  refine ⟨gone ++ more, fun h => ?_, ?_⟩
  · rw [hlocators', hlocators, List.mem_append, not_or, and_assoc]
  · rw [hentry', hentry, and_assoc, List.forall_mem_append]
    refine and_congr_right fun _ => and_congr_right fun hgone => forall₂_congr fun h _ => not_congr ?_
    rw [hlocators]
    exact and_iff_left_of_imp fun hi hmem => hgone h hmem hi

/-- What becomes of a terminus when a record is taken. A locator of it makes the entry and is stored,
unless that fails. -/
def Enters (i : UInt16) (x : Exchange) (record : Bytes) (failed : Prop) (y : Exchange) : Prop :=
  (LocatorOf record i ∧ i ∈ y.termini ∧ (y.Locates i ∨ failed)) ∨ (¬ LocatorOf record i ∧ Ebbs i x y)

theorem Enters.after_ebbs (hxy : Ebbs i x y) (hyz : Enters i y record failed z) :
    Enters i x record failed z :=
  hyz.imp_right (And.imp_right hxy.trans)

theorem Enters.unlearns (hy : y.Charted) (hz : z.Charted) (hxy : Enters i x record failed y)
    (hyz : Unlearns y z []) : Enters i x record failed z := by
  refine hxy.imp (fun ⟨hrecord, hknown, hstored⟩ => ⟨hrecord, ?_, hstored.imp_left ?_⟩)
    (And.imp_right fun hebbs => hebbs.trans (hyz.ebbs hy i))
  · exact (hyz.termini i).mpr ⟨hknown, by simp⟩
  · rw [hy.locates, hz.locates]
    rintro ⟨h, hi⟩
    exact ⟨h, by rw [hyz.sheds.terminus? hy, if_neg (List.not_mem_nil), hi]⟩

/-- A record is stored that may be a locator of the terminus. -/
theorem Stores.enters (hx : x.Charted) (hy : y.Charted) (hnone : x.stored? h = none)
    (hxy : Stores x y h record)
    (htermini : ∀ i, i ∈ y.termini ↔ i ∈ x.termini ∨ LocatorOf record i) (i : UInt16) :
    Enters i x record failed y := by
  have hterminus (hrecord : LocatorOf record i) :
      (locatorIn? record).map TerminusLocator.terminusHandle = some i :=
    Option.map_eq_some_iff.mpr hrecord
  by_cases hrecord : LocatorOf record i
  · refine .inl ⟨hrecord, (htermini i).mpr (.inr hrecord), .inl (hy.locates.mpr ⟨h, ?_⟩)⟩
    rw [hxy.terminus? hx, if_pos rfl, hterminus hrecord]
  · refine .inr ⟨hrecord, [], fun j => ?_, by simp [htermini, hrecord]⟩
    rw [hxy.terminus? hx]
    split_ifs with hj
    · rw [hj, terminus?_of_none hnone, Option.map_eq_some_iff]
      exact iff_of_false hrecord (by simp)
    · simp

/-- A record is filed once its terminus has been noted, if it is a locator. -/
theorem store_enters {termini : Termini} {header : RecordHeader} {body : Bytes} (hx : x.Charted)
    (hnone : x.stored? h = none) (hsplit : RecordHeader.split record = .ok (header, body))
    (hkind : header.type = .terminusLocator → ∃ t, locatorIn? record = some t)
    (htermini : ∀ i, i ∈ termini ↔ i ∈ x.termini ∨ LocatorOf record i) :
    let made := { x with termini }.store h record
    made.1.Charted ∧ ∀ i, Enters i x record (∃ e, made.2 = .error e) made.1 := by
  have hnoted : ({ x with termini } : Exchange).Undoable := hx.undoable.aside rfl rfl rfl
  have hmade := hnoted.store h record
  rcases store_cases { x with termini } h record with ⟨e, heq⟩ | ⟨y, heq, hstores, hsame⟩
  · simp only [heq]
    have hsheds : Sheds x { x with termini } [] := (Sheds.refl hx.undoable.parted).aside rfl rfl rfl
    refine ⟨hsheds.charted hx hnoted, fun i => ?_⟩
    by_cases hrecord : LocatorOf record i
    · exact .inl ⟨hrecord, (htermini i).mpr (.inr hrecord), .inr ⟨e, rfl⟩⟩
    · refine .inr ⟨hrecord, [], fun j => ?_, by simp [htermini, hrecord]⟩
      simp [hsheds.terminus? hx]
  · rw [heq] at hmade
    simp only [heq]
    have hfiled : Stores x y h record := ⟨hstores.settings, hstores.made⟩
    have hy := hfiled.charted hx hnone hmade hsplit hkind
    exact ⟨hy, hfiled.enters hx hy hnone fun i => hsame ▸ htermini i⟩

/-- A record is stored unless it is an association or cannot be read. -/
theorem classify_cases {header : RecordHeader} {body : Bytes}
    (hsplit : RecordHeader.split record = .ok (header, body)) (x : Exchange) :
    (locatorIn? record = none ∧ (x.classify header record = (x.skip, .ok ()) ∨
      ∃ a, x.classify header record = x.merge header.handle a)) ∨
    ∃ termini : Termini, (header.type = .terminusLocator → ∃ t, locatorIn? record = some t) ∧
      (∀ i, i ∈ termini ↔ i ∈ x.termini ∨ LocatorOf record i) ∧
      x.classify header record = { x with termini }.store header.handle record := by
  -- Other records leave the termini as they are.
  have hother {type : RecordType} (htype : header.type = type) (hne : type ≠ .terminusLocator) :
      (header.type = .terminusLocator → ∃ t, locatorIn? record = some t) ∧
        ∀ i, i ∈ x.termini ↔ i ∈ x.termini ∨ LocatorOf record i := by
    have hnone := locatorIn?_of_type hsplit (htype ▸ hne)
    exact ⟨fun heq => absurd (htype.symm.trans heq) hne, fun i => by simp [LocatorOf, hnone]⟩
  unfold classify
  split_ifs with hassociation hsensor hlocator
  · have hnone := locatorIn?_of_type hsplit (hassociation ▸ by decide)
    split
    next a _ => exact .inl ⟨hnone, .inr ⟨a, rfl⟩⟩
    next => exact .inl ⟨hnone, .inl rfl⟩
  · obtain ⟨hkind, htermini⟩ := hother hsensor (by decide)
    split
    next => exact .inr ⟨x.termini, hkind, htermini, rfl⟩
    next =>
      exact .inl ⟨locatorIn?_of_type hsplit (hsensor ▸ by decide), .inl rfl⟩
  · split
    next t hread =>
      have ht : locatorIn? record = some t := locatorIn?_eq_some.mpr ⟨_, hread⟩
      refine .inr ⟨_, fun _ => ⟨t, ht⟩, fun i => ?_, rfl⟩
      simp only [Std.ExtTreeMap.mem_insert, Std.LawfulEqCmp.compare_eq_iff_eq, LocatorOf, ht,
        Option.some.injEq, exists_eq_left']
      exact or_comm
    next hread =>
      have hnone : locatorIn? record = none := by simp [locatorIn?, hread, Except.toOption]
      exact .inl ⟨hnone, .inl rfl⟩
  · obtain ⟨hkind, htermini⟩ := hother rfl hlocator
    exact .inr ⟨x.termini, hkind, htermini, rfl⟩

theorem classify_enters {header : RecordHeader} {body : Bytes} (hx : x.Charted)
    (hsplit : RecordHeader.split record = .ok (header, body))
    (hnew : x.imports[header.handle]? = none) :
    let made := x.classify header record
    made.1.Charted ∧ ∀ i, Enters i x record (∃ e, made.2 = .error e) made.1 := by
  have hmade := hx.undoable.classify hnew record
  have hnone : x.stored? header.handle = none := by simp [stored?, hnew]
  -- The record is no locator, and nothing is stored.
  have hunlearns {y : Exchange} {result : Except RepositoryError Unit}
      (heq : x.classify header record = (y, result)) (hother : locatorIn? record = none)
      (hxy : Unlearns x y []) : (x.classify header record).1.Charted ∧
        ∀ i, Enters i x record (∃ e, (x.classify header record).2 = .error e)
          (x.classify header record).1 := by
    rw [heq] at hmade ⊢
    exact ⟨hxy.sheds.charted hx hmade, fun i => .inr ⟨by simp [LocatorOf, hother], hxy.ebbs hx i⟩⟩
  rcases classify_cases hsplit x with ⟨hother, heq | ⟨a, heq⟩⟩ | ⟨termini, hkind, htermini, heq⟩
  · exact hunlearns heq hother (.same hx.undoable.parted rfl rfl rfl rfl)
  · exact hunlearns heq hother (.of_sheds (merge_sheds hx.undoable.parted a hnone) (merge_termini ..))
  · rw [heq]
    exact store_enters hx hnone hsplit hkind htermini

theorem importRecord_enters (hx : x.Charted) (record : Bytes) :
    let made := x.importRecord record
    made.1.Charted ∧ ∀ i, Enters i x record (∃ e, made.2 = .error e) made.1 := by
  have hmade := hx.undoable.importRecord record
  rcases x.importRecord_cases record with ⟨e, hsplit, heq⟩ | ⟨header, body, hsplit, hcases⟩
  · rw [heq] at hmade ⊢
    have hskip : Unlearns x x.skip [] := .same hx.undoable.parted rfl rfl rfl rfl
    refine ⟨hskip.sheds.charted hx hmade, fun i => .inr ⟨?_, hskip.ebbs hx i⟩⟩
    rintro ⟨t, ht, -⟩
    obtain ⟨header, hread⟩ := locatorIn?_eq_some.mp ht
    obtain ⟨body, rest, hsplit', -⟩ := decodeRecord_eq_ok.mp hread
    simp [hsplit] at hsplit'
  have hseen : Unlearns x (x.see header.handle) [] := .same hx.undoable.parted rfl rfl rfl rfl
  have hforgotten := forget_unlearns
    (hseen.sheds.charted hx (hx.undoable.aside rfl rfl rfl)) [header.handle]
  obtain ⟨bare, touched, hforget, hbare, himports, heq⟩ := hx.undoable.importRecord_eq hsplit
  rw [hforget] at hforgotten
  have hgone : Unlearns x (bare.touch touched.toList) [header.handle] :=
    (hseen.trans hx hforgotten).aside rfl rfl rfl rfl
  have hbare' := hgone.sheds.charted hx (hbare.aside rfl rfl rfl)
  obtain ⟨hcharted, henters⟩ :=
    classify_enters hbare' hsplit ((himports header.handle).trans (if_pos rfl))
  rw [heq]
  exact ⟨hcharted, fun i => (henters i).after_ebbs (hgone.ebbs hx i)⟩

end entering

section calls

/-- The call takes a locator of the terminus. -/
def TakesLocator (x : Exchange) (call : Call) (i : UInt16) : Prop :=
  ∃ record, x.taken? call = some record ∧ LocatorOf record i

theorem not_takesLocator (h : x.taken? call = none) : ¬ x.TakesLocator call i := by
  rintro ⟨record, htaken, -⟩
  simp [h] at htaken

theorem advance_unlearns (hx : x.Parted) (next : RecordHandle) :
    Unlearns x (x.advance next).1 [] := by
  refine .of_sheds (advance_sheds hx next) ?_
  obtain ⟨y, result, h⟩ : ∃ y result, x.advance next = (y, result) := ⟨_, _, rfl⟩
  rw [h]
  rcases advance_cases h with ⟨-, rfl, -⟩ | ⟨c, -, ⟨rfl, -⟩ | ⟨rfl, -⟩ | ⟨rfl, -⟩⟩ <;> rfl

/-- What becomes of a terminus in a call other than a resync. -/
def Fares (i : UInt16) (x : Exchange) (call : Call) : Prop :=
  (x.TakesLocator call i ∧ i ∈ (x.after call).termini ∧
      ((x.after call).Locates i ∨ x.call? call = none)) ∨
    (¬ x.TakesLocator call i ∧ Ebbs i x (x.after call))

/-- A call that takes no record undoes some imports. -/
theorem fares_of_unlearns (hx : x.Charted) (htaken : x.taken? call = none)
    (h : Unlearns x (x.after call) gone) : (x.after call).Charted ∧ ∀ i, Fares i x call :=
  ⟨h.sheds.charted hx (hx.undoable.after call), fun i => .inr ⟨not_takesLocator htaken, h.ebbs hx i⟩⟩

/-- What becomes of a terminus in a call that takes a record is settled once the record is imported. -/
theorem fares_of_enters (hx : x.Charted) (hz : z.Charted) (htaken : x.taken? call = some record)
    (henters : ∀ i, Enters i x record failed z) (hzy : Unlearns z (x.after call) [])
    (hfailed : failed → x.call? call = none) : (x.after call).Charted ∧ ∀ i, Fares i x call := by
  have hy := hzy.sheds.charted hz (hx.undoable.after call)
  refine ⟨hy, fun i => ?_⟩
  rcases (henters i).unlearns hz hy hzy with ⟨hrecord, hknown, hstored⟩ | ⟨hrecord, hebbs⟩
  · exact .inl ⟨⟨record, htaken, hrecord⟩, hknown, hstored.imp_right hfailed⟩
  · refine .inr ⟨?_, hebbs⟩
    rintro ⟨other, hother, hlocator⟩
    obtain rfl := Option.some.inj (htaken.symm.trans hother)
    exact hrecord hlocator

theorem receive_fares (hx : x.Charted) (cycle : CycleId) (answer : Except RequestError Bytes) :
    (x.after (.receive cycle answer)).Charted ∧ ∀ i, Fares i x (.receive cycle answer) := by
  cases hawaited : x.awaited? cycle with
  | none =>
    have hsame : Unlearns x (x.after (.receive cycle answer)) [] := by
      rw [after, receive_of_stray hawaited answer]
      exact .same hx.undoable.parted rfl rfl rfl rfl
    exact fares_of_unlearns hx (by simp [taken?, hawaited]) hsame
  | some handle =>
    obtain ⟨c, hc, rfl, hflight⟩ := awaited?_eq_some.mp hawaited
    obtain ⟨y, result, h⟩ : ∃ y result, x.receive c.id answer = (y, result) := ⟨_, _, rfl⟩
    have hafter : x.after (.receive c.id answer) = y := congrArg Prod.fst h
    have hanswered : Unlearns x (x.answered c) [] := .same hx.undoable.parted rfl rfl rfl rfl
    have hc' : (x.answered c).Charted := hanswered.sheds.charted hx (hx.undoable.aside rfl rfl rfl)
    rcases receive_of_inFlight hc hflight h with
      ⟨e, hread, rfl, -⟩ | ⟨record, next, hread, hcases⟩
    · have hsame : Unlearns x (x.after (.receive c.id answer)) [] := by
        rw [hafter]
        exact .same hx.undoable.parted rfl rfl rfl rfl
      exact fares_of_unlearns hx (by simp [taken?, hawaited, hread, Except.toOption]) hsame
    have htaken : x.taken? (.receive c.id answer) = some record := by
      simp [taken?, hawaited, hread, Except.toOption]
    obtain ⟨hz, henters⟩ := importRecord_enters hc' record
    have henters' (i : UInt16) := (henters i).after_ebbs (hanswered.ebbs hx i)
    rcases hcases with ⟨z, e, himport, rfl, rfl⟩ | ⟨z, himport, hadvance⟩
    all_goals
      simp only [himport] at hz henters'
    · refine fares_of_enters hx hz htaken henters' ?_ fun _ => by simp only [call?, h]
      rw [hafter]
      exact .same hz.undoable.parted rfl rfl rfl rfl
    · have hzy := advance_unlearns hz.undoable.parted next
      rw [hadvance, ← hafter] at hzy
      exact fares_of_enters hx hz htaken henters' hzy fun hfailed => by simp at hfailed

/-- Marking locators changes neither what they are locators of nor which termini have entries. -/
theorem hostDown_fares (hx : x.Charted) :
    (x.after .hostDown).Charted ∧ ∀ i, Fares i x .hostDown := by
  have hget := get?_invalidateTermini x
  have hstored (h : RecordHandle) : (x.after .hostDown).stored? h = x.stored? h := by
    rw [after, stored?, invalidateTermini_imports, stored?]
  have hterminus (h : RecordHandle) : (x.after .hostDown).terminus? h = x.terminus? h := by
    cases hk : x.stored? h with
    | none => rw [terminus?_of_none hk, terminus?_of_none ((hstored h).trans hk)]
    | some k =>
      rw [terminus?_of_stored hk, terminus?_of_stored ((hstored h).trans hk)]
      cases hrecord : x.repository.get? k with
      | none => simp [after, hget, hrecord]
      | some record =>
        simp only [after, hget, hrecord, Option.map_some, Option.bind_some]
        exact Record.terminus_unreached
  refine ⟨⟨hx.undoable.after .hostDown, fun {h k} hk => ?_, fun {h j k} hh hj => ?_,
    fun {k record} hin hmarked htype => ?_⟩,
    fun i => .inr ⟨not_takesLocator rfl, [], fun h => by simp [hterminus], ?_⟩⟩
  · obtain ⟨record, hrecord⟩ := hx.held (hstored h ▸ hk)
    exact ⟨_, by rw [after, hget, hrecord, Option.map_some]⟩
  · exact hx.alone (hstored h ▸ hh) (hstored j ▸ hj)
  · rw [after, hget] at hmarked
    rw [after, invalidateTermini_settings] at hin
    obtain ⟨old, hold, rfl⟩ := Option.map_eq_some_iff.mp hmarked
    rw [Record.type_unreached] at htype
    obtain ⟨⟨t, ht⟩, h, hh⟩ := hx.located hin hold htype
    exact ⟨⟨_, Record.locator?_unreached ht⟩, h, (hstored h).trans hh⟩
  · simp only [Std.ExtTreeMap.mem_iff_isSome_getElem?, hostDown_termini, Option.isSome_map]
    simp

/-- A resync clears both sides. -/
theorem resync_clears (hx : x.Charted) : (x.after .resync).Charted ∧
    ∀ i, i ∉ (x.after .resync).termini ∧ ¬ (x.after .resync).Locates i := by
  have hempties := beginResync_empties hx.undoable.parted
  refine ⟨⟨hx.undoable.beginResync, fun hk => ?_, fun hk _ => ?_, fun {k record} hin hget _ => ?_⟩,
    fun i => ⟨Std.ExtTreeMap.not_mem_empty, ?_⟩⟩
  · simp [after, hempties.stored] at hk
  · simp [after, hempties.stored] at hk
  · rw [after, hempties.settings] at hin
    simp [after, hempties.cleared k hin] at hget
  · rintro ⟨k, record, t, hin, hget, -⟩
    rw [after, hempties.settings] at hin
    simp [after, hempties.cleared k hin] at hget

/-- Any other call takes a locator or lets some go. -/
theorem fares_of_ne_resync (hx : x.Charted) (hcall : call ≠ .resync) :
    (x.after call).Charted ∧ ∀ i, Fares i x call := by
  cases call with
  | resync => exact absurd rfl hcall
  | fetch handles =>
    have hsame : Unlearns x (x.after (.fetch handles)) [] := by
      rcases x.beginFetch_cases handles with ⟨c, -, heq⟩ | ⟨-, heq⟩ | ⟨-, phase, heq⟩
      all_goals
        rw [after, heq]
        exact .same hx.undoable.parted rfl rfl rfl rfl
    exact fares_of_unlearns hx rfl hsame
  | request =>
    have hsame : Unlearns x (x.after .request) [] := by
      rcases x.nextRequest_cases with heq | heq | ⟨c, handle, rest, phase, -, -, -, heq⟩
      all_goals
        rw [after, heq]
        exact .same hx.undoable.parted rfl rfl rfl rfl
    exact fares_of_unlearns hx rfl hsame
  | receive cycle answer => exact receive_fares hx cycle answer
  | forget handles => exact fares_of_unlearns hx rfl (forget_unlearns hx handles)
  | hostDown => exact hostDown_fares hx
  | link up =>
    have hsame : Unlearns x (x.after (.link up)) [] := .same hx.undoable.parted rfl rfl rfl rfl
    exact fares_of_unlearns hx rfl hsame

theorem after_fares (hx : x.Charted) (call : Call) : (x.after call).Charted ∧ ∀ i,
    (call = .resync ∧ i ∉ (x.after call).termini ∧ ¬ (x.after call).Locates i) ∨
      (call ≠ .resync ∧ Fares i x call) := by
  by_cases hcall : call = .resync
  · subst hcall
    obtain ⟨hy, hclear⟩ := resync_clears hx
    exact ⟨hy, fun i => .inl ⟨rfl, hclear i⟩⟩
  · obtain ⟨hy, hfares⟩ := fares_of_ne_resync hx hcall
    exact ⟨hy, fun i => .inr ⟨hcall, hfares i⟩⟩

end calls

section runs

/-- None of the calls begins a resync or takes a locator of the terminus. -/
def Unrenewed (i : UInt16) (x : Exchange) : List Call → Prop
  | [] => True
  | call :: rest => (call ≠ .resync ∧ ¬ x.TakesLocator call i) ∧ Unrenewed i (x.after call) rest

/-- Something happened at one of the calls, and the terminus has not been renewed since. -/
def Since (x : Exchange) (calls : List Call) (i : UInt16) (event : Exchange → Call → Prop) : Prop :=
  ∃ done call later, calls = done ++ call :: later ∧ event (x.afterAll done) call ∧
    Unrenewed i ((x.afterAll done).after call) later

/-- A locator of the terminus was taken and not stored, and no other is there. -/
def Unstored (i : UInt16) (x : Exchange) (call : Call) : Prop :=
  x.TakesLocator call i ∧ x.call? call = none ∧ ¬ (x.after call).Locates i

/-- One of several stored locators of the terminus went, and took the entry along. -/
def Overdrawn (i : UInt16) (x : Exchange) (call : Call) : Prop :=
  (i ∈ x.termini ∧ i ∉ (x.after call).termini) ∧ ∃ h j, h ≠ j ∧
    x.terminus? h = some i ∧ (x.after call).terminus? h = some i ∧
    x.terminus? j = some i ∧ (x.after call).terminus? j ≠ some i

theorem unrenewed_concat : Unrenewed i x (calls ++ [call]) ↔
    Unrenewed i x calls ∧ call ≠ .resync ∧ ¬ (x.afterAll calls).TakesLocator call i := by
  induction calls generalizing x with
  | nil => simp [Unrenewed, afterAll]
  | cons first rest ih =>
    rw [List.cons_append, Unrenewed, Unrenewed, ih, ← and_assoc]
    rfl

theorem since_concat {event : Exchange → Call → Prop} : x.Since (calls ++ [call]) i event ↔
    event (x.afterAll calls) call ∨
      x.Since calls i event ∧ call ≠ .resync ∧ ¬ (x.afterAll calls).TakesLocator call i := by
  refine Splits.exists_concat_iff.trans (or_congr (and_iff_left trivial) ?_)
  constructor
  · rintro ⟨done, next, later, rfl, hevent, hlater⟩
    obtain ⟨hrest, hlast⟩ := unrenewed_concat.mp hlater
    rw [afterAll_split]
    exact ⟨⟨done, next, later, rfl, hevent, hrest⟩, hlast⟩
  · rintro ⟨⟨done, next, later, rfl, hevent, hrest⟩, hlast⟩
    rw [afterAll_split] at hlast
    exact ⟨done, next, later, rfl, hevent, unrenewed_concat.mpr ⟨hrest, hlast⟩⟩

/-- A locator that is there after a call that takes none was there before. -/
theorem locates_before (hx : x.Charted) (hlocates : (x.after call).Locates i)
    (hcall : call ≠ .resync) (htakes : ¬ x.TakesLocator call i) : x.Locates i := by
  obtain ⟨hy, hfares⟩ := after_fares hx call
  obtain ⟨h, hi⟩ := hy.locates.mp hlocates
  rcases hfares i with ⟨heq, -⟩ | ⟨-, ⟨htaken, -⟩ | ⟨-, gone, hlocators, -⟩⟩
  · exact absurd heq hcall
  · exact absurd htaken htakes
  · exact hx.locates.mpr ⟨h, ((hlocators h).mp hi).1⟩

/-- An entry is without a locator when none could be stored for it, or when it was before. -/
theorem unstored_after (hx : x.Charted) (call : Call) (i : UInt16) :
    i ∈ (x.after call).termini ∧ ¬ (x.after call).Locates i ↔
      Unstored i x call ∨
        (i ∈ x.termini ∧ ¬ x.Locates i) ∧ call ≠ .resync ∧ ¬ x.TakesLocator call i := by
  obtain ⟨hy, hfares⟩ := after_fares hx call
  rcases hfares i with ⟨rfl, hentry, hlocates⟩ | ⟨hcall, ⟨htakes, hentry, hstored⟩ | ⟨htakes, hebbs⟩⟩
  · refine iff_of_false (fun hboth => hentry hboth.1) ?_
    rintro (⟨htakes, -⟩ | ⟨-, hnot, -⟩)
    · exact not_takesLocator rfl htakes
    · exact hnot rfl
  · constructor
    · rintro ⟨-, hnone⟩
      exact .inl ⟨htakes, hstored.resolve_left hnone, hnone⟩
    · rintro (⟨-, -, hnone⟩ | ⟨-, -, hnot⟩)
      · exact ⟨hentry, hnone⟩
      · exact absurd htakes hnot
  · obtain ⟨gone, hlocators, hentries⟩ := hebbs
    constructor
    · rintro ⟨hentry, hnone⟩
      obtain ⟨hbefore, hkept⟩ := hentries.mp hentry
      refine .inr ⟨⟨hbefore, fun hlocates => hnone ?_⟩, hcall, htakes⟩
      obtain ⟨h, hi⟩ := hx.locates.mp hlocates
      exact hy.locates.mpr ⟨h, (hlocators h).mpr ⟨hi, fun hgone => hkept h hgone hi⟩⟩
    · rintro (⟨htaken, -⟩ | ⟨⟨hbefore, hnone⟩, -⟩)
      · exact absurd htaken htakes
      · refine ⟨hentries.mpr ⟨hbefore, fun h _ hi => hnone (hx.locates.mpr ⟨h, hi⟩)⟩, fun hlocates => ?_⟩
        exact hnone (locates_before hx hlocates hcall htakes)

/-- A stored locator is without an entry when another has taken it along, or when it was before. -/
theorem overdrawn_after (hx : x.Charted) (hlocates : (x.after call).Locates i) :
    i ∉ (x.after call).termini ↔
      Overdrawn i x call ∨ i ∉ x.termini ∧ call ≠ .resync ∧ ¬ x.TakesLocator call i := by
  obtain ⟨hy, hfares⟩ := after_fares hx call
  rcases hfares i with ⟨rfl, -, hnone⟩ | ⟨hcall, ⟨htakes, hentry, -⟩ | ⟨htakes, hebbs⟩⟩
  · exact absurd hlocates hnone
  · refine iff_of_false (fun hnot => hnot hentry) ?_
    rintro (⟨⟨-, hnot⟩, -⟩ | ⟨-, -, hnot⟩)
    · exact hnot hentry
    · exact hnot htakes
  · obtain ⟨gone, hlocators, hentries⟩ := hebbs
    constructor
    · intro hnot
      by_cases hbefore : i ∈ x.termini
      · obtain ⟨j, hgone, hj⟩ : ∃ j ∈ gone, x.terminus? j = some i := by
          by_contra hkept
          exact hnot (hentries.mpr ⟨hbefore, fun j hgone hj => hkept ⟨j, hgone, hj⟩⟩)
        obtain ⟨h, hi⟩ := hy.locates.mp hlocates
        obtain ⟨hi', hstays⟩ := (hlocators h).mp hi
        refine .inl ⟨⟨hbefore, hnot⟩, h, j, ?_, hi', hi, hj, fun hj' => ((hlocators j).mp hj').2 hgone⟩
        rintro rfl
        exact hstays hgone
      · exact .inr ⟨hbefore, hcall, htakes⟩
    · rintro (⟨⟨-, hnot⟩, -⟩ | ⟨hbefore, -⟩)
      · exact hnot
      · exact fun hentry => hbefore (hentries.mp hentry).1

/-- Where the entries and the stored locators disagree. -/
theorem termini_after (hx : x.Charted) (hentries : x.termini = ∅) (hbare : ∀ i, ¬ x.Locates i)
    (calls : List Call) (i : UInt16) :
    let y := x.afterAll calls
    y.Charted ∧ (i ∈ y.termini ∧ ¬ y.Locates i ↔ x.Since calls i (Unstored i)) ∧
      (y.Locates i → (i ∉ y.termini ↔ x.Since calls i (Overdrawn i))) := by
  induction calls using List.reverseRecOn with
  | nil =>
    refine ⟨hx, iff_of_false ?_ ?_, fun hi => absurd hi (hbare i)⟩
    · rintro ⟨hi, -⟩
      rw [afterAll_nil, hentries] at hi
      exact Std.ExtTreeMap.not_mem_empty hi
    · rintro ⟨done, call, later, heq, -⟩
      simp at heq
  | append_singleton calls call ih =>
    obtain ⟨hu, hunstored, hoverdrawn⟩ := ih
    rw [afterAll_concat, since_concat, since_concat]
    refine ⟨(after_fares hu call).1, ?_, fun hlocates => ?_⟩
    · rw [unstored_after hu, hunstored]
    · rw [overdrawn_after hu hlocates]
      exact or_congr_right <| and_congr_left fun ⟨hcall, htakes⟩ =>
        hoverdrawn (locates_before hu hlocates hcall htakes)

/-- A terminus has an entry just when a stored record of the host is a locator of it, with two
exceptions. It has only the entry if its locator could not be stored, which is a fatal error. It has
only the locator if there were several and one of them went, which took the entry along. When the host
goes down every entry loses its validity. The stored locators of the host can be read, and all lose it
but those whose entry had been taken along. -/
theorem entries_go_with_any_locator (settings : ExchangeSettings) (names : EntityNames) (r : Repository)
    (t : Containment) (hsettings : settings.ownRange.Apart settings.hostRange)
    (hranges : r.ownRange.Apart r.hostRange) (hhost : r.hostRange = settings.hostRange)
    (hbare : ∀ k record, r.get? k = some record → record.type ≠ .terminusLocator)
    (calls : List Call) :
    let x := start settings names r t
    let y := x.afterAll calls
    (∀ i, (i ∈ y.termini ∧ ¬ y.Locates i ↔ x.Since calls i (Unstored i)) ∧
      (y.Locates i → (i ∉ y.termini ↔ x.Since calls i (Overdrawn i)))) ∧
    (∀ (i : UInt16) (terminus : Terminus), (y.after .hostDown).termini[i]? = some terminus →
      terminus.valid = false) ∧
    ∀ k record, settings.hostRange.contains k = true →
      (y.after .hostDown).repository.get? k = some record → record.type = .terminusLocator →
      ∃ t, record.locator? = some t ∧
        (t.valid = true → x.Since calls t.terminusHandle (Overdrawn t.terminusHandle)) := by
  intro x y
  have hx : x.Charted := by
    refine ⟨.start names t hsettings hranges hhost, fun hk => ?_, fun hk _ => ?_,
      fun _ hget htype => absurd htype (hbare _ _ hget)⟩
    all_goals simp [x, stored?, start] at hk
  have hnone (i : UInt16) : ¬ x.Locates i := by
    rintro ⟨k, record, t, -, hget, ht, -⟩
    exact hbare k record hget (Record.locator?_eq_some.mp ht).1
  have hall := termini_after hx rfl hnone calls
  have hy : y.Charted := (hall 0).1
  have hsame : y.settings = settings := (hx.undoable.afterAll calls).2
  refine ⟨fun i => (hall i).2, fun i terminus hterminus => ?_, fun k record hin hmarked htype => ?_⟩
  · rw [hostDown_termini] at hterminus
    obtain ⟨old, -, rfl⟩ := Option.map_eq_some_iff.mp hterminus
    rfl
  · have hget := get?_invalidateTermini y k
    rw [show y.invalidateTermini.1.repository.get? k = some record from hmarked] at hget
    obtain ⟨old, hold, rfl⟩ := Option.map_eq_some_iff.mp hget.symm
    rw [Record.type_unreached] at htype
    rw [← hsame] at hin
    obtain ⟨⟨t, ht⟩, -⟩ := hy.located hin hold htype
    refine ⟨_, Record.locator?_unreached ht, fun hvalid => ?_⟩
    have hlocates : y.Locates t.terminusHandle := ⟨k, old, t, hin, hold, ht, rfl⟩
    refine ((hall t.terminusHandle).2.2 hlocates).mp fun hentry => ?_
    have hcontains : y.termini.contains t.terminusHandle = true :=
      Std.ExtTreeMap.contains_iff_mem.mpr hentry
    rw [hcontains] at hvalid
    simp at hvalid

/-- A single locator and its entry are there together, and no call has parted them. -/
theorem entries_go_with_any_locator_single :
    let r : Repository := .empty .localDefault .hostDefault
    let x := start .standard ⟨[]⟩ r .empty
    let calls : List Call :=
      [.resync, .request, .receive 0 (.ok (locatorAnswer 1 RecordHandle.terminator))]
    let y := x.afterAll calls
    r.ownRange.Apart r.hostRange ∧
      (∀ k record, r.get? k = some record → record.type ≠ .terminusLocator) ∧
      7 ∈ y.termini ∧ y.Locates 7 ∧
      ¬ x.Since calls 7 (Unstored 7) ∧ ¬ x.Since calls 7 (Overdrawn 7) := by
  intro r x calls y
  have hranges : r.ownRange.Apart r.hostRange := ⟨by decide, by decide, by decide⟩
  have hbare (k : RecordHandle) (record : Record) (hget : r.get? k = some record) :
      record.type ≠ .terminusLocator := by simp [r, Repository.empty, Repository.get?] at hget
  have hentry : 7 ∈ y.termini := by decide +kernel
  have hread : (y.repository.get? 16777216).bind Record.locator? =
      some ⟨7, true, ⟨1⟩, 0, .endpoint ⟨9⟩⟩ := by decide +kernel
  have hlocates : y.Locates 7 := locates_of_read (by decide) hread
  obtain ⟨hall, -⟩ :=
    entries_go_with_any_locator .standard ⟨[]⟩ r .empty hranges hranges rfl hbare calls
  obtain ⟨hunstored, hoverdrawn⟩ := hall 7
  exact ⟨hranges, hbare, hentry, hlocates, fun hlost => (hunstored.mpr hlost).2 hlocates,
    fun hlost => (hoverdrawn hlocates).mpr hlost hentry⟩

/-- Of two locators of one terminus the first is withdrawn, and the entry goes with it. The other is
still stored, and it keeps its validity when the host goes down. -/
theorem forget_takes_shared_entry :
    let r : Repository := .empty .localDefault .hostDefault
    let calls : List Call :=
      [.resync, .request, .receive 0 (.ok (locatorAnswer 1 2)), .request,
        .receive 0 (.ok (locatorAnswer 2 RecordHandle.terminator)), .forget [1]]
    let y := (start .standard ⟨[]⟩ r .empty).afterAll calls
    r.ownRange.Apart r.hostRange ∧ (∀ k, r.get? k = none) ∧ y.Locates 7 ∧ 7 ∉ y.termini ∧
      y.settings.hostRange.contains 16777217 = true ∧
      ((y.after .hostDown).repository.get? 16777217).bind Record.locator? =
        some ⟨7, true, ⟨1⟩, 0, .endpoint ⟨9⟩⟩ := by
  intro r calls y
  have hread : (y.repository.get? 16777217).bind Record.locator? =
      some ⟨7, true, ⟨1⟩, 0, .endpoint ⟨9⟩⟩ := by decide +kernel
  exact ⟨⟨by decide, by decide, by decide⟩, fun k => by simp [r, Repository.empty, Repository.get?],
    locates_of_read (by decide) hread, by decide +kernel, by decide, by decide +kernel⟩

end runs

end Exchange
end DescriptorExchange
