import DescriptorExchange.Proofs.Exchange.Charts
import DescriptorExchange.Proofs.Exchange.Fetching
import DescriptorExchange.Proofs.Exchange.Refetching
import DescriptorExchange.Proofs.Repository.Slots
import DescriptorExchange.Proofs.Splits

/-!
The handles that records of the host get. A record whose own handle lies in the range of the host keeps
it unless another has been given it before. Which handles are given depends on the records that arrive
and on their order, and on nothing that was there before the resync. So the next resync against the
same host gives the same handles, those of the records that could not keep theirs among them.
-/
namespace DescriptorExchange.Exchange

variable {x y z x' y' : Exchange} {h j k : RecordHandle} {record body : Bytes} {header : RecordHeader}
  {call : Call} {calls : List Call}

section keeping

/-- A handle of the host's range is free where no import has stored anything under it. -/
theorem Stocked.free_iff (hx : x.Stocked) (hin : x.settings.hostRange.contains k = true) :
    x.repository.get? k = none ↔ ∀ j, x.stored? j ≠ some k := by
  constructor
  · intro hfree j hj
    obtain ⟨-, held, hget, -⟩ := hx.held hj
    simp [hfree] at hget
  · intro hnone
    by_contra hsome
    obtain ⟨held, hget⟩ := Option.ne_none_iff_exists'.mp hsome
    obtain ⟨j, hj⟩ := hx.named hin hget
    exact hnone j hj

/-- The import of a stored record names the handle that the repository has given it. -/
theorem Stores.slot (hxy : Stores x y h record) (hown : ownHandle? record = some h) : ∃ k,
    x.repository.slot? .host h = some k ∧
      ∀ j, y.stored? j = if j = h then some k else x.stored? j := by
  obtain ⟨k, hinsert, himports⟩ := hxy.made
  obtain ⟨header, body, stored, hsplit, hslot, -, -⟩ := Repository.insert_eq_ok.mp hinsert
  obtain rfl : header.handle = h := by simpa [ownHandle?, hsplit, Except.toOption] using hown
  refine ⟨k, hslot, fun j => ?_⟩
  simp only [stored?, himports, imports_insert]
  split_ifs <;> rfl

/-- Where no import is undone, the same is stored. -/
theorem Sheds.stored_eq (hxy : Sheds x y []) (h : RecordHandle) : y.stored? h = x.stored? h := by
  ext k
  simpa using hxy.stored h k

/-- A record is sorted once its import has nothing stored any more. -/
theorem importRecord_sorts (hx : x.Undoable) (hstock : x.Stocked)
    (hsplit : RecordHeader.split record = .ok (header, body)) : ∃ bare : Exchange,
      bare.Undoable ∧ bare.Stocked ∧ bare.settings = x.settings ∧
      (∀ j, bare.stored? j = if j = header.handle then none else x.stored? j) ∧
      x.importRecord record = bare.classify header record := by
  obtain ⟨bare, touched, hforget, hbare, himports, heq⟩ := hx.importRecord_eq hsplit
  have hseen : Sheds x (x.see header.handle) [] := (Sheds.refl hx.parted).aside rfl rfl rfl
  obtain ⟨gone, hforgot, -⟩ := forget_sheds [header.handle] hseen.parted
  rw [hforget] at hforgot
  have hsheds : Sheds x (bare.touch touched.toList) gone :=
    (hseen.trans_nil hforgot).aside rfl rfl rfl
  refine ⟨bare.touch touched.toList, hbare.aside rfl rfl rfl, hsheds.stocked hstock,
    hsheds.settings, fun j => ?_, heq⟩
  have himports' : (bare.touch touched.toList).imports = bare.imports := rfl
  rw [stored?, himports', himports]
  split_ifs <;> rfl

/-- A record that arrives keeps its own handle just when no other import has it. -/
theorem importRecord_keeps (hx : x.Undoable) (hstock : x.Stocked) (hown : ownHandle? record = some h)
    (hk : (x.importRecord record).1.stored? h = some k)
    (hin : x.settings.hostRange.contains h = true) :
    k = h ↔ ∀ j, j ≠ h → x.stored? j ≠ some h := by
  rcases x.importRecord_cases record with ⟨e, hsplit, -⟩ | ⟨header, body, hsplit, -⟩
  · simp [ownHandle?, hsplit, Except.toOption] at hown
  obtain rfl : header.handle = h := by simpa [ownHandle?, hsplit, Except.toOption] using hown
  obtain ⟨bare, -, hbare, hsettings, hstored, heq⟩ := importRecord_sorts hx hstock hsplit
  rw [heq] at hk
  have hnone : bare.stored? header.handle = none := (hstored _).trans (if_pos rfl)
  have hfree : bare.repository.get? header.handle = none ↔
      ∀ j, j ≠ header.handle → x.stored? j ≠ some header.handle := by
    rw [hbare.free_iff (hsettings ▸ hin)]
    refine forall_congr' fun j => ?_
    rw [hstored]
    split_ifs with hj <;> simp [hj]
  rw [← hfree]
  rcases classify_stores hbare.parted record hnone with hsheds | hstores
  · simp [hsheds.stored_none hnone] at hk
  obtain ⟨given, hslot, hnow⟩ := hstores.slot hown
  rw [hnow, if_pos rfl] at hk
  obtain rfl := Option.some.inj hk
  constructor
  · intro hsame
    rw [← hsame]
    exact (Repository.slot?_spec .host hbare.parted.ranges.hostProper hslot).2
  · intro hfree
    have hrange : (bare.repository.range .host).contains header.handle = true := by
      rw [show bare.repository.range .host = bare.settings.hostRange from hbare.parted.host, hsettings]
      exact hin
    rw [Repository.slot?, if_pos ⟨rfl, hrange, by simp [Repository.mem_records, hfree]⟩] at hslot
    exact (Option.some.inj hslot).symm

/-- A call that takes a record stores nothing but what the record brings. -/
theorem after_of_taken (hx : x.Undoable) (htaken : x.taken? call = some record) : ∃ c,
    ∀ h, (x.after call).stored? h = ((x.answered c).importRecord record).1.stored? h := by
  cases call with
  | receive cycle answer =>
    cases hawaited : x.awaited? cycle with
    | none => simp [taken?, hawaited] at htaken
    | some handle =>
      obtain ⟨c, hc, rfl, hflight⟩ := awaited?_eq_some.mp hawaited
      obtain ⟨y, result, h⟩ : ∃ y result, x.receive c.id answer = (y, result) := ⟨_, _, rfl⟩
      refine ⟨c, fun i => ?_⟩
      rw [after, h]
      rcases receive_of_inFlight hc hflight h with ⟨e, hread, -, -⟩ | ⟨found, next, hread, hcases⟩
      · simp [taken?, hawaited, hread, Except.toOption] at htaken
      obtain rfl : found = record := by
        simpa [taken?, hawaited, hread, Except.toOption] using htaken
      rcases hcases with ⟨z, e, himport, rfl, -⟩ | ⟨z, himport, hadvance⟩
      · rw [himport]
        rfl
      · have hz := Undoable.importRecord (hx.aside rfl rfl rfl : (x.answered c).Undoable) found
        rw [himport] at hz ⊢
        have hzy := advance_sheds hz.parted next
        rw [hadvance] at hzy
        exact hzy.stored_eq i
  | _ => simp [taken?] at htaken

/-- The last of the calls that bring a record with the handle has found the handle with the record of
another import. -/
def Ceded (x : Exchange) (calls : List Call) (h : RecordHandle) : Prop :=
  ∃ done call later, calls = done ++ call :: later ∧
    ((x.afterAll done).taken? call).bind ownHandle? = some h ∧
    ¬ ((x.afterAll done).after call).Brings h later ∧
    ∃ j, j ≠ h ∧ (x.afterAll done).imports[j]? = some (.stored h)

theorem ceded_concat : x.Ceded (calls ++ [call]) h ↔
    (((x.afterAll calls).taken? call).bind ownHandle? = some h ∧
      ∃ j, j ≠ h ∧ (x.afterAll calls).imports[j]? = some (.stored h)) ∨
    (((x.afterAll calls).taken? call).bind ownHandle? ≠ some h ∧ x.Ceded calls h) := by
  refine Splits.exists_concat_iff.trans (or_congr ?_ ?_)
  · exact and_congr_right fun _ => and_iff_right not_false
  constructor
  · rintro ⟨done, next, later, rfl, htaken, hnot, hother⟩
    rw [brings_append, not_or] at hnot
    rw [afterAll_split]
    exact ⟨fun hlast => hnot.2 (.inl hlast), done, next, later, rfl, htaken, hnot.1, hother⟩
  · rintro ⟨hlast, done, next, later, rfl, htaken, hnot, hother⟩
    rw [afterAll_split] at hlast
    refine ⟨done, next, later, rfl, htaken, ?_, hother⟩
    rw [brings_append, not_or]
    exact ⟨hnot, fun hbrings => hbrings.elim hlast id⟩

/-- What a call has stored for the record it has brought. -/
theorem kept_iff (hx : x.Undoable) (hstock : x.Stocked)
    (hbrought : (x.taken? call).bind ownHandle? = some h) (hk : (x.after call).stored? h = some k)
    (hin : x.settings.hostRange.contains h = true) :
    k = h ↔ ∀ j, j ≠ h → x.imports[j]? ≠ some (.stored h) := by
  obtain ⟨record, htaken, hown⟩ := Option.bind_eq_some_iff.mp hbrought
  obtain ⟨c, hafter⟩ := after_of_taken hx htaken
  rw [hafter] at hk
  have hanswered : Sheds x (x.answered c) [] := (Sheds.refl hx.parted).aside rfl rfl rfl
  have hkeeps := importRecord_keeps (hx.aside rfl rfl rfl : (x.answered c).Undoable)
    (hanswered.stocked hstock) hown hk hin
  refine hkeeps.trans (forall₂_congr fun j _ => not_congr ?_)
  exact stored?_eq_some (x := x.answered c)

/-- From a state with no stored imports on. -/
theorem kept_unless_ceded (hx : x.Undoable) (hstock : x.Stocked) (hnone : ∀ h, x.stored? h = none)
    (calls : List Call) (hk : (x.afterAll calls).stored? h = some k)
    (hin : x.settings.hostRange.contains h = true) : k = h ↔ ¬ x.Ceded calls h := by
  induction calls using List.reverseRecOn generalizing k with
  | nil => simp [afterAll, hnone] at hk
  | append_singleton calls call ih =>
    obtain ⟨hundoable, hsettings⟩ := hx.afterAll calls
    have hstocked := (afterAll_stocked hstock hnone calls).1
    rw [afterAll_concat] at hk
    rw [ceded_concat]
    obtain ⟨-, -, ⟨record, htaken, hown, -⟩ | ⟨hother, hbefore, -⟩⟩ :=
      (after_turnover hundoable.parted call).source hstocked hk
    · have hbrought : ((x.afterAll calls).taken? call).bind ownHandle? = some h := by
        rw [htaken]
        exact hown
      rw [kept_iff hundoable hstocked hbrought hk (hsettings ▸ hin)]
      simp [hbrought]
    · rw [ih hbefore]
      simp [hother]

/-- Where all handles lie in the range of the host, all are kept. -/
theorem kept_within (hx : x.Undoable) (hstock : x.Stocked) (hnone : ∀ h, x.stored? h = none)
    (calls : List Call) (hwithin : ∀ h, x.Brings h calls → x.settings.hostRange.contains h = true)
    (hk : (x.afterAll calls).stored? h = some k) : k = h := by
  induction calls using List.reverseRecOn generalizing h k with
  | nil => simp [afterAll, hnone] at hk
  | append_singleton calls call ih =>
    obtain ⟨hundoable, hsettings⟩ := hx.afterAll calls
    have hstocked := (afterAll_stocked hstock hnone calls).1
    have hbefore (i j : RecordHandle) (hj : (x.afterAll calls).stored? i = some j) : j = i :=
      ih (fun g hg => hwithin g (brings_append.mpr (.inl hg))) hj
    rw [afterAll_concat] at hk
    obtain ⟨-, -, ⟨record, htaken, hown, -⟩ | ⟨-, hsame, -⟩⟩ :=
      (after_turnover hundoable.parted call).source hstocked hk
    · have hbrought : ((x.afterAll calls).taken? call).bind ownHandle? = some h := by
        rw [htaken]
        exact hown
      have hin := hwithin h (brings_append.mpr (.inr (.inl hbrought)))
      refine (kept_iff hundoable hstocked hbrought hk (hsettings ▸ hin)).mpr fun j hj himport => ?_
      exact hj (hbefore j h (stored?_eq_some.mpr himport)).symm
    · exact hbefore h k hsame

end keeping

section leveling

/-- Both have stored records for the same imports under the same handles. -/
structure Level (x y : Exchange) : Prop where
  left : x.Undoable ∧ x.Stocked
  right : y.Undoable ∧ y.Stocked
  settings : y.settings = x.settings
  stored : ∀ h, y.stored? h = x.stored? h

/-- What the steps of a cycle go by, but for its id. -/
def pace (x : Exchange) :
    Bool × Option (FetchMode × List RecordHandle × Option RecordHandle × HandleSet) :=
  (x.hostUp, x.cycle.map fun c => c.agenda.2)

theorem Undisturbed.pace (h : Undisturbed x y) : y.pace = x.pace := by
  have hup : y.hostUp = x.hostUp := congrArg (·.2.2) h.fixed
  have hcycle := congrArg (Option.map Prod.snd) h.agenda
  rw [Option.map_map, Option.map_map] at hcycle
  exact Prod.ext hup hcycle

/-- The repositories have the same handles of the host's range taken. -/
theorem Level.taken (h : Level x y) :
    Repository.Taken x.settings.hostRange x.repository y.repository := by
  intro k hk
  refine not_iff_not.mp ?_
  rw [Option.not_isSome_iff_eq_none, Option.not_isSome_iff_eq_none, h.left.2.free_iff hk,
    h.right.2.free_iff (h.settings ▸ hk)]
  simp only [h.stored]

/-- Steps on both sides that store nothing. -/
theorem Level.sheds (h : Level x y) (hx : Sheds x x' []) (hy : Sheds y y' []) (hx' : x'.Undoable)
    (hy' : y'.Undoable) : Level x' y' where
  left := ⟨hx', hx.stocked h.left.2⟩
  right := ⟨hy', hy.stocked h.right.2⟩
  settings := by rw [hy.settings, hx.settings, h.settings]
  stored i := by rw [hy.stored_eq, hx.stored_eq, h.stored]

/-- Steps on both sides that change neither the repository nor the imports. -/
theorem Level.aside (h : Level x y)
    (hx : x'.settings = x.settings ∧ x'.repository = x.repository ∧ x'.imports = x.imports)
    (hy : y'.settings = y.settings ∧ y'.repository = y.repository ∧ y'.imports = y.imports) :
    Level x' y' :=
  h.sheds ((Sheds.refl h.left.1.parted).aside hx.1 hx.2.1 hx.2.2)
    ((Sheds.refl h.right.1.parted).aside hy.1 hy.2.1 hy.2.2)
    (h.left.1.aside hx.1 hx.2.1 hx.2.2) (h.right.1.aside hy.1 hy.2.1 hy.2.2)

/-- A record that is stored on both sides gets the same handle. -/
theorem Level.stores (h : Level x y) (hnone : x.stored? j = none) (hown : ownHandle? record = some j)
    (hx : Stores x x' j record) (hy : Stores y y' j record) (hx' : x'.Undoable) (hy' : y'.Undoable) :
    Level x' y' where
  left := ⟨hx', hx.stocked h.left.2 hnone⟩
  right := ⟨hy', hy.stocked h.right.2 ((h.stored j).trans hnone)⟩
  settings := by rw [hy.settings, hx.settings, h.settings]
  stored i := by
    obtain ⟨k, hslot, hstored⟩ := hx.slot hown
    obtain ⟨l, hslot', hstored'⟩ := hy.slot hown
    have hleft := h.left.1.parted
    have hproper : x.settings.hostRange.first ≤ x.settings.hostRange.last :=
      hleft.host ▸ hleft.ranges.hostProper
    have hsame := h.taken.slot? hproper hleft.host (h.settings ▸ h.right.1.parted.host) j
    rw [hslot, hslot', Option.some.injEq] at hsame
    rw [hstored', hstored, hsame, h.stored]

theorem Level.classify (h : Level x y) (hsplit : RecordHeader.split record = .ok (header, body))
    (hnone : x.stored? header.handle = none) (hx : x.classify header record = (x', .ok ()))
    (hy : y.classify header record = (y', .ok ())) (hx' : x'.Undoable) (hy' : y'.Undoable) :
    Level x' y' := by
  have hnone' := (h.stored header.handle).trans hnone
  rcases classify_uniform header record with hskip | ⟨⟨_, a⟩, -, hmerge⟩ | ⟨note, -, hstore⟩
  · obtain ⟨rfl, -⟩ := Prod.mk.inj ((hskip x).symm.trans hx)
    obtain ⟨rfl, -⟩ := Prod.mk.inj ((hskip y).symm.trans hy)
    exact h.aside ⟨rfl, rfl, rfl⟩ ⟨rfl, rfl, rfl⟩
  · have hleft := merge_sheds h.left.1.parted a hnone
    have hright := merge_sheds h.right.1.parted a hnone'
    rw [hmerge] at hx hy
    rw [hx] at hleft
    rw [hy] at hright
    exact h.sheds hleft hright hx' hy'
  · rw [hstore] at hx hy
    have hown : ownHandle? record = some header.handle := by
      simp [ownHandle?, hsplit, Except.toOption]
    have hlevel : Level { x with termini := note x.termini } { y with termini := note y.termini } :=
      h.aside ⟨rfl, rfl, rfl⟩ ⟨rfl, rfl, rfl⟩
    rcases store_cases { x with termini := note x.termini } header.handle record with
      ⟨e, heq⟩ | ⟨u, heq, hu, -⟩
    · simp [heq] at hx
    rcases store_cases { y with termini := note y.termini } header.handle record with
      ⟨e, heq'⟩ | ⟨v, heq', hv, -⟩
    · simp [heq'] at hy
    obtain ⟨rfl, -⟩ := Prod.mk.inj (heq.symm.trans hx)
    obtain ⟨rfl, -⟩ := Prod.mk.inj (heq'.symm.trans hy)
    exact hlevel.stores hnone hown hu hv hx' hy'

/-- The same record is imported on both sides. -/
theorem Level.importRecord (h : Level x y) (hx : x.importRecord record = (x', .ok ()))
    (hy : y.importRecord record = (y', .ok ())) : Level x' y' := by
  have hx' := h.left.1.importRecord record
  have hy' := h.right.1.importRecord record
  rw [hx] at hx'
  rw [hy] at hy'
  cases hsplit : RecordHeader.split record with
  | error e =>
    have hskip (z : Exchange) : z.importRecord record = (z.skip, .ok ()) := by
      simp only [Exchange.importRecord, hsplit]
    obtain ⟨rfl, -⟩ := Prod.mk.inj ((hskip x).symm.trans hx)
    obtain ⟨rfl, -⟩ := Prod.mk.inj ((hskip y).symm.trans hy)
    exact h.aside ⟨rfl, rfl, rfl⟩ ⟨rfl, rfl, rfl⟩
  | ok found =>
    obtain ⟨header, body⟩ := found
    obtain ⟨u, hu, husound, husettings, hustored, heq⟩ := importRecord_sorts h.left.1 h.left.2 hsplit
    obtain ⟨v, hv, hvsound, hvsettings, hvstored, heq'⟩ :=
      importRecord_sorts h.right.1 h.right.2 hsplit
    have huv : Level u v := by
      refine ⟨⟨hu, husound⟩, ⟨hv, hvsound⟩, by rw [hvsettings, husettings, h.settings], fun i => ?_⟩
      rw [hustored, hvstored, h.stored]
    exact huv.classify hsplit ((hustored _).trans (if_pos rfl)) (heq ▸ hx) (heq' ▸ hy) hx' hy'

end leveling

section pacing

theorem pace_eq_some {c : Cycle} (hp : y.pace = x.pace) (hc : x.cycle = some c) :
    y.hostUp = x.hostUp ∧ ∃ d, y.cycle = some d ∧ d.mode = c.mode ∧ d.queue = c.queue ∧
      d.inFlight = c.inFlight ∧ d.seen = c.seen := by
  obtain ⟨hup, hcycle⟩ := Prod.mk.inj hp
  rw [hc] at hcycle
  obtain ⟨d, hd, hagenda⟩ := Option.map_eq_some_iff.mp hcycle
  simp only [Cycle.agenda, Prod.mk.injEq] at hagenda
  exact ⟨hup, d, hd, hagenda⟩

theorem pace_importRecord (hp : y.pace = x.pace) (record : Bytes) :
    (y.importRecord record).1.pace = (x.importRecord record).1.pace := by
  rw [(importRecord_undisturbed x record).pace, (importRecord_undisturbed y record).pace]
  unfold noted
  cases RecordHeader.split record with
  | error e => exact hp
  | ok found =>
    obtain ⟨hup, hcycle⟩ := Prod.mk.inj hp
    have hsee (z : Exchange) :
        (z.mapCycle fun c => { c with seen := c.seen.insert found.1.handle }).pace = (z.pace.1,
          z.pace.2.map fun a => (a.1, a.2.1, a.2.2.1, a.2.2.2.insert found.1.handle)) := by
      simp only [pace, mapCycle, Option.map_map]
      rfl
    rw [hsee, hsee, hp]

/-- Both ask for the same, or the one that does not ask is to stay as it is. -/
theorem Level.nextRequest {asked : Option FetchRequest} (h : Level x y) (hp : y.pace = x.pace)
    (hrequest : x.nextRequest = (x', .ok asked)) : x' = x ∨
      ∃ d, y.cycle = some d ∧ d.inFlight = none ∧ Level x' y.nextRequest.1 ∧
        y.nextRequest.1.pace = x'.pace := by
  cases hc : x.cycle with
  | none =>
    simp only [Exchange.nextRequest, hc] at hrequest
    exact .inl (Prod.mk.inj hrequest).1.symm
  | some c =>
    obtain ⟨hup, d, hd, hmode, hqueue, hflight, hseen⟩ := pace_eq_some hp hc
    simp only [Exchange.nextRequest, hc, hd, hup, hqueue, hflight] at hrequest ⊢
    split_ifs at hrequest ⊢
    · split at hrequest
      next handle rest hidle _ =>
        obtain ⟨rfl, -⟩ := Prod.mk.inj hrequest
        refine .inr ⟨d, rfl, hflight.trans hidle, ?_, ?_⟩
        · exact h.aside ⟨rfl, rfl, rfl⟩ ⟨rfl, rfl, rfl⟩
        · simp only [pace, Option.map_some, Cycle.agenda, hmode, hseen]
      next => exact .inl (Prod.mk.inj hrequest).1.symm
    · simp at hrequest

/-- Both go on to the next record, or both complete. -/
theorem Level.advance {c : Cycle} {next : RecordHandle} {outcome outcome' : FetchOutcome}
    (h : Level x y) (hp : y.pace = x.pace) (hc : x.cycle = some c)
    (hx : x.advance next = (x', .ok outcome)) (hy : y.advance next = (y', .ok outcome')) :
    Level x' y' ∧ ((outcome = .proceed ∧ outcome' = .proceed ∧ y'.pace = x'.pace) ∨
      ∃ notice notice', outcome = .complete notice ∧ outcome' = .complete notice') := by
  obtain ⟨hup, d, hd, hmode, hqueue, hflight, hseen⟩ := pace_eq_some hp hc
  have hleft := advance_sheds h.left.1.parted next
  have hright := advance_sheds h.right.1.parted next
  have hx' := h.left.1.advance next
  have hy' := h.right.1.advance next
  rw [hx] at hleft hx'
  rw [hy] at hright hy'
  refine ⟨h.sheds hleft hright hx' hy', ?_⟩
  have hfollow : (d.follow next).agenda.2 = (c.follow next).agenda.2 := by
    simp only [Cycle.follow, hmode]
    split_ifs <;> simp only [Cycle.agenda, hmode, hqueue, hflight, hseen]
  have hleft : (d.follow next).queue = (c.follow next).queue := congrArg (·.2.1) hfollow
  rw [advance_eq hc] at hx
  rw [advance_eq hd] at hy
  simp only [hmode, hseen, hleft] at hx hy
  split_ifs at hx hy
  · simp at hx
  · obtain ⟨-, houtcome⟩ := Prod.mk.inj hx
    obtain ⟨-, houtcome'⟩ := Prod.mk.inj hy
    exact .inr ⟨_, _, (Except.ok.inj houtcome).symm, (Except.ok.inj houtcome').symm⟩
  · obtain ⟨rfl, houtcome⟩ := Prod.mk.inj hx
    obtain ⟨rfl, houtcome'⟩ := Prod.mk.inj hy
    refine .inl ⟨(Except.ok.inj houtcome).symm, (Except.ok.inj houtcome').symm, ?_⟩
    simp only [pace, Option.map_some, hfollow, hup]

/-- What the one awaits the other awaits, perhaps for another cycle. -/
theorem awaited?_of_pace {cycle : CycleId} {handle : RecordHandle} (hp : y.pace = x.pace)
    (hawaited : x.awaited? cycle = some handle) : ∃ id, y.awaited? id = some handle := by
  obtain ⟨c, hc, -, hflight⟩ := awaited?_eq_some.mp hawaited
  obtain ⟨-, d, hd, -, -, hsame, -⟩ := pace_eq_some hp hc
  exact ⟨d.id, awaited?_eq_some.mpr ⟨d, hd, rfl, hsame.trans hflight⟩⟩

/-- Both take the answer that they await. -/
theorem Level.receive {cycle id : CycleId} {handle : RecordHandle}
    {answer : Except RequestError Bytes} {outcome outcome' : FetchOutcome} (h : Level x y)
    (hp : y.pace = x.pace) (hleft : x.awaited? cycle = some handle)
    (hright : y.awaited? id = some handle) (hx : x.receive cycle answer = (x', .ok outcome))
    (hy : y.receive id answer = (y', .ok outcome')) :
    Level x' y' ∧ ((outcome = .proceed ∧ outcome' = .proceed ∧ y'.pace = x'.pace) ∨
      ∃ notice notice', outcome = .complete notice ∧ outcome' = .complete notice') := by
  obtain ⟨c, record, next, u, hc, hread, himport, hadvance⟩ := receive_of_awaited hleft hx
  obtain ⟨d, record', next', v, hd, hread', himport', hadvance'⟩ := receive_of_awaited hright hy
  obtain ⟨rfl, rfl⟩ := Prod.mk.inj (Except.ok.inj (hread.symm.trans hread'))
  have hanswered : Level (x.answered c) (y.answered d) :=
    h.aside ⟨rfl, rfl, rfl⟩ ⟨rfl, rfl, rfl⟩
  have hpace : (y.answered d).pace = (x.answered c).pace := by
    obtain ⟨hup, d', hd', hmode, hqueue, -, hseen⟩ := pace_eq_some hp hc
    obtain rfl := Option.some.inj (hd.symm.trans hd')
    simp only [pace, answered, Option.map_some, Cycle.agenda, hmode, hqueue, hseen, hup]
  have huv := hanswered.importRecord himport himport'
  have hpaced := pace_importRecord hpace record
  rw [himport, himport'] at hpaced
  obtain ⟨e, he, -⟩ := importRecord_cycle (show (x.answered c).cycle = some _ from rfl) record
  rw [himport] at he
  exact huv.advance hpaced he hadvance hadvance'

end pacing

section completing

variable {host : RecordHandle → Except RequestError Bytes} {notice notice' : Option ChangeNotice}

/-- However two resyncs come to complete against the same host, they have stored the same records under
the same handles. -/
theorem Completes.level (hrun : Completes host x x' notice) (h : Level x y) (hp : y.pace = x.pace)
    (hagain : Completes host y z notice') : Level x' z := by
  -- What the other side has dropped in the meantime does not matter.
  have hstale {x y : Exchange} (h : Level x y) (k : Nat) : Level x (y.withStale k) :=
    h.aside ⟨rfl, rfl, rfl⟩ ⟨rfl, rfl, rfl⟩
  have hdropped {x y : Exchange} (h : Level x y) (k : Nat) : Level (x.withStale k) y :=
    h.aside ⟨rfl, rfl, rfl⟩ ⟨rfl, rfl, rfl⟩
  induction hrun using Completes.answers_induction generalizing y with
  | request _ _ hrequest ih =>
    rcases h.nextRequest hp hrequest with rfl | ⟨d, hd, hidle, hlevel, hpace⟩
    · exact ih h hp hagain
    · obtain ⟨k, hk⟩ := hagain.of_idle hd hidle
      exact ih (hstale hlevel k) hpace hk
  | drop _ _ ih => exact ih (hdropped h _) hp hagain
  | receive _ _ hx hreceive hgoes ih =>
    obtain ⟨id, hy⟩ := awaited?_of_pace hp hx
    obtain ⟨k, w, outcome, hw, hend⟩ := hagain.of_awaited hy
    obtain ⟨hlevel, ⟨-, rfl, hpace⟩ | ⟨n, -, hn, -⟩⟩ :=
      (hstale h k).receive hp hx hy hreceive hw
    · rcases hend with ⟨hc, -⟩ | ⟨-, hrest⟩
      · simp at hc
      · exact ih hlevel hpace hrest
    · exact absurd hn (hgoes n)
  | complete _ hx hreceive =>
    obtain ⟨id, hy⟩ := awaited?_of_pace hp hx
    obtain ⟨k, w, outcome, hw, hend⟩ := hagain.of_awaited hy
    obtain ⟨hlevel, ⟨hproceed, -⟩ | ⟨n, n', -, hn'⟩⟩ :=
      (hstale h k).receive hp hx hy hreceive hw
    · simp at hproceed
    · rcases hend with ⟨-, rfl⟩ | ⟨hgoes, -⟩
      · exact hlevel
      · exact absurd hn' (hgoes n')

/-- A cycle that has something to ask for and completes has the host to ask. -/
theorem Completes.up {c : Cycle} (hrun : Completes host x y notice) (hc : x.cycle = some c)
    (hflight : c.inFlight = none) : x.hostUp = true := by
  by_contra hdown
  obtain ⟨k, hrest⟩ := hrun.of_idle hc hflight
  have hended : x.nextRequest.1.cycle = none := by simp [Exchange.nextRequest, hc, hdown, abort]
  exact hrest.cycle_ne_none hended

/-- Resyncs of exchanges with the same settings begin alike. -/
theorem beginResync_level (hx : x.Undoable) (hy : y.Undoable) (hsettings : y.settings = x.settings) :
    Level x.beginResync.1 y.beginResync.1 := by
  have hleft := beginResync_empties hx.parted
  have hright := beginResync_empties hy.parted
  refine ⟨⟨hx.beginResync, hleft.stocked⟩, ⟨hy.beginResync, hright.stocked⟩, ?_, fun i => ?_⟩
  · rw [hright.settings, hleft.settings, hsettings]
  · rw [hright.stored, hleft.stored]

theorem beginResync_pace (x : Exchange) : x.beginResync.1.pace =
    (x.hostUp, some (.chain, [RecordHandle.terminator], none, ∅)) :=
  x.beginResync_undisturbed.pace

/-- Of two resyncs against the same host both complete with the same records under the same handles. -/
theorem Completes.same_handles (hx : x.Undoable) (hy : y.Undoable) (hsettings : y.settings = x.settings)
    (hrun : Completes host x.beginResync.1 x' notice)
    (hagain : Completes host y.beginResync.1 y' notice') : Level x' y' := by
  have hup {x y : Exchange} {notice : Option ChangeNotice}
      (hrun : Completes host x.beginResync.1 y notice) : x.hostUp = true := by
    obtain ⟨hsame, hcycle⟩ := Prod.mk.inj (beginResync_pace x)
    obtain ⟨c, hc, hagenda⟩ := Option.map_eq_some_iff.mp hcycle
    simp only [Cycle.agenda, Prod.mk.injEq] at hagenda
    exact hsame.symm.trans (hrun.up hc hagenda.2.2.1)
  refine hrun.level (beginResync_level hx hy hsettings) ?_ hagain
  rw [beginResync_pace, beginResync_pace, hup hrun, hup hagain]

end completing

/-- After a resync has begun, a stored record of the host whose own handle lies in the host's range is
under that handle, unless the handle was that of another import when the record arrived. It is never
so if all handles that arrive lie in the range. And whatever arrives in whatever order, the next resync
against the same host gives every record the handle that it had. -/
theorem host_handles_kept (settings : ExchangeSettings) (names : EntityNames) (r : Repository)
    (t : Containment) (hsettings : settings.ownRange.Apart settings.hostRange)
    (hranges : r.ownRange.Apart r.hostRange) (hhost : r.hostRange = settings.hostRange)
    (before calls : List Call) :
    let x := ((start settings names r t).afterAll before).beginResync.1
    let y := x.afterAll calls
    (∀ h k : RecordHandle, y.imports[h]? = some (.stored k) → settings.hostRange.contains h = true →
      (k = h ↔ ¬ x.Ceded calls h)) ∧
    ((∀ h, x.Brings h calls → settings.hostRange.contains h = true) →
      ∀ h k : RecordHandle, y.imports[h]? = some (.stored k) → k = h) ∧
    ∀ host notice between z notice', Completes host x y notice →
      Completes host (y.afterAll between).beginResync.1 z notice' →
      ∀ h k : RecordHandle, z.imports[h]? = some (.stored k) ↔ y.imports[h]? = some (.stored k) := by
  intro x y
  have hstart : (start settings names r t).Undoable := .start names t hsettings hranges hhost
  obtain ⟨hbefore, hsame⟩ := hstart.afterAll before
  have hempties := beginResync_empties hbefore.parted
  have hx : x.Undoable := hbefore.beginResync
  have hxs : x.settings = settings := hempties.settings.trans hsame
  obtain ⟨hy, hys⟩ := hx.afterAll calls
  refine ⟨fun h k hk hin => ?_, fun hwithin h k hk => ?_, ?_⟩
  · exact kept_unless_ceded hx hempties.stocked hempties.stored calls (stored?_eq_some.mpr hk)
      (hxs ▸ hin)
  · exact kept_within hx hempties.stocked hempties.stored calls (fun g hg => hxs ▸ hwithin g hg)
      (stored?_eq_some.mpr hk)
  · intro host notice between z notice' hrun hagain h k
    obtain ⟨hlater, hsame'⟩ := hy.afterAll between
    have hlevel := Completes.same_handles hbefore hlater
      (hsame'.trans (hys.trans hempties.settings)) hrun hagain
    rw [← stored?_eq_some, ← stored?_eq_some, hlevel.stored]

/-- A host of two records. The first one has a handle outside the host's range, and the second one the
first handle of it. -/
def strayFirst (h : RecordHandle) : Except RequestError Bytes :=
  if h = RecordHandle.terminator then .ok (RecordResponse.single 0x1000000 (bareRecord 7)).encode
  else .ok (bareAnswer 0x1000000)

/-- The second record has had to cede its handle, and in the next resync it has to again. -/
theorem host_handles_kept_stray :
    let r : Repository := .empty .localDefault .hostDefault
    let x := (start .standard ⟨[]⟩ r .empty).beginResync.1
    let calls : List Call := [.request, .receive 0 (strayFirst 0), .request,
      .receive 0 (strayFirst 0x1000000)]
    let y := x.afterAll calls
    r.ownRange.Apart r.hostRange ∧ x.Ceded calls 0x1000000 ∧
      Completes strayFirst x y (some ⟨[0x1000000, 0x1000001], [], []⟩) ∧
      ∃ z, Completes strayFirst y.beginResync.1 z none ∧
        z.imports[(0x1000000 : RecordHandle)]? = some (.stored 0x1000001) := by
  intro r x calls y
  have hranges : r.ownRange.Apart r.hostRange := ⟨by decide, by decide, by decide⟩
  have himport : y.imports[(0x1000000 : RecordHandle)]? = some (.stored 0x1000001) := by
    decide +kernel
  have hrun : Completes strayFirst x y (some ⟨[0x1000000, 0x1000001], [], []⟩) :=
    .answered (f := ⟨0, 0⟩) (by decide +kernel) (by decide +kernel)
      (.last (f := ⟨0, 0x1000000⟩) (by decide +kernel) (by decide +kernel))
  have hagain : Completes strayFirst y.beginResync.1 _ none :=
    .answered (f := ⟨1, 0⟩) (by decide +kernel) (by decide +kernel)
      (.last (f := ⟨1, 0x1000000⟩) (by decide +kernel) (by decide +kernel))
  obtain ⟨hkept, -, hsame⟩ :=
    host_handles_kept .standard ⟨[]⟩ r .empty hranges hranges rfl [] calls
  simp only [afterAll_nil] at hkept hsame
  have hnext := fun z notice' => hsame strayFirst _ [] z notice' hrun
  simp only [afterAll_nil] at hnext
  refine ⟨hranges, ?_, hrun, _, hagain, ?_⟩
  · exact not_not.mp ((not_congr (hkept _ _ himport (by decide))).mp (by decide))
  · exact (hnext _ _ hagain 0x1000000 0x1000001).mpr himport

/-- In a completed resync a record that comes after another is stored under a handle that is not its own,
although its own lies in the range of the host and was free when the resync began. -/
theorem resync_gives_handle_away :
    let r : Repository := .empty .localDefault .hostDefault
    let x := (start .standard ⟨[]⟩ r .empty).beginResync.1
    ∃ y, Completes strayFirst x y (some ⟨[0x1000000, 0x1000001], [], []⟩) ∧
      x.repository.get? 0x1000000 = none ∧ y.settings.hostRange.contains 0x1000000 = true ∧
      y.imports[(7 : RecordHandle)]? = some (.stored 0x1000000) ∧
      y.imports[(0x1000000 : RecordHandle)]? = some (.stored 0x1000001) := by
  intro r x
  have hrun : Completes strayFirst x _ (some ⟨[0x1000000, 0x1000001], [], []⟩) :=
    .answered (f := ⟨0, 0⟩) (by decide +kernel) (by decide +kernel)
      (.last (f := ⟨0, 0x1000000⟩) (by decide +kernel) (by decide +kernel))
  exact ⟨_, hrun, by decide +kernel, by decide +kernel, by decide +kernel, by decide +kernel⟩

end DescriptorExchange.Exchange
