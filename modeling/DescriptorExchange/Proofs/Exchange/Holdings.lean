import DescriptorExchange.Proofs.Exchange.Agenda
import DescriptorExchange.Proofs.Exchange.Anchored
import DescriptorExchange.Proofs.Repository.Copies

/-!
What the exchange holds of the host: the stored imports and the records in the range of the host. The
merges work on the controller's own records and leave them alone. A call drops what some imports have
stored, stores a single record, marks locators or clears the range, and does nothing else to them.
-/
namespace DescriptorExchange.Exchange

variable {x y z : Exchange} {h k : RecordHandle} {hs ks : List RecordHandle}

section holdings

/-- The record that an import has stored. -/
def stored? (x : Exchange) (h : RecordHandle) : Option RecordHandle :=
  match x.imports[h]? with
  | some (.stored k) => some k
  | _ => none

theorem stored?_eq_some : x.stored? h = some k ↔ x.imports[h]? = some (.stored k) := by
  unfold stored?
  split
  next other heq => simp [heq]
  next hno =>
    refine ⟨fun hfalse => by simp at hfalse, fun heq => absurd heq (hno k)⟩

/-- The range of the host is apart from that of the controller's own records, and merges are listed
outside it. -/
structure Parted (x : Exchange) : Prop where
  host : x.repository.hostRange = x.settings.hostRange
  ranges : x.repository.ownRange.Apart x.repository.hostRange
  settings : x.settings.ownRange.Apart x.settings.hostRange
  merged : ∀ {h k : RecordHandle} {parent children}, x.imports[h]? = some (.merged parent children k) →
    x.settings.hostRange.contains k = false

theorem Parted.of_ranges (hx : x.Parted) (hsettings : y.settings = x.settings)
    (hown : y.repository.ownRange = x.repository.ownRange)
    (hhost : y.repository.hostRange = x.repository.hostRange)
    (hmerged : ∀ {h k : RecordHandle} {parent children},
      y.imports[h]? = some (.merged parent children k) → x.settings.hostRange.contains k = false) :
    y.Parted where
  host := by rw [hhost, hsettings, hx.host]
  ranges := by
    rw [hown, hhost]
    exact hx.ranges
  settings := hsettings ▸ hx.settings
  merged h := hsettings ▸ hmerged h

/-- From `x` to `y` some imports were undone, with the records they had stored. -/
structure Sheds (x y : Exchange) (gone : List RecordHandle) : Prop where
  parted : y.Parted
  settings : y.settings = x.settings
  stored : ∀ h k, y.stored? h = some k ↔ x.stored? h = some k ∧ h ∉ gone
  dropped : ∀ h k, h ∈ gone → x.stored? h = some k → x.settings.hostRange.contains k = true →
    y.repository.get? k = none
  kept : ∀ k, x.settings.hostRange.contains k = true → (∀ h ∈ gone, x.stored? h ≠ some k) →
    y.repository.get? k = x.repository.get? k

/-- From `x` to `y` a record was stored for an import. -/
structure Stores (x y : Exchange) (h : RecordHandle) (record : Bytes) : Prop where
  settings : y.settings = x.settings
  made : ∃ k, x.repository.insert .host record = .ok (y.repository, k) ∧
    y.imports = x.imports.insert h (.stored k)

/-- From `x` to `y` the imports were forgotten and the range of the host was cleared. -/
structure Empties (x y : Exchange) : Prop where
  parted : y.Parted
  settings : y.settings = x.settings
  stored : ∀ h, y.stored? h = none
  cleared : ∀ k, x.settings.hostRange.contains k = true → y.repository.get? k = none

namespace Sheds

theorem refl (hx : x.Parted) : Sheds x x [] where
  parted := hx
  settings := rfl
  stored h k := by simp
  dropped h k hmem := by simp at hmem
  kept k _ _ := rfl

theorem trans (hxy : Sheds x y hs) (hyz : Sheds y z ks) : Sheds x z (hs ++ ks) where
  parted := hyz.parted
  settings := hyz.settings.trans hxy.settings
  stored h k := by
    rw [hyz.stored, hxy.stored, List.mem_append, not_or, and_assoc]
  dropped h k hmem hk hin := by
    by_cases hy : ∃ j ∈ ks, y.stored? j = some k
    · obtain ⟨j, hj, hjk⟩ := hy
      exact hyz.dropped j k hj hjk (hxy.settings ▸ hin)
    · have hsame := hyz.kept k (hxy.settings ▸ hin) fun j hj hjk => hy ⟨j, hj, hjk⟩
      have hgone : h ∈ hs := by
        by_contra hnot
        have hlater : h ∈ ks := (List.mem_append.mp hmem).resolve_left hnot
        exact hy ⟨h, hlater, (hxy.stored h k).mpr ⟨hk, hnot⟩⟩
      exact hsame.trans (hxy.dropped h k hgone hk hin)
  kept k hin hnone := by
    have hfirst := hxy.kept k hin fun h hmem => hnone h (List.mem_append_left _ hmem)
    refine (hyz.kept k (hxy.settings ▸ hin) fun h hmem hk => ?_).trans hfirst
    exact hnone h (List.mem_append_right _ hmem) ((hxy.stored h k).mp hk).1

theorem trans_nil (hxy : Sheds x y []) (hyz : Sheds y z ks) : Sheds x z ks := hxy.trans hyz

/-- A record in the range of the host has gone, or it is the same. -/
theorem get?_host (hxy : Sheds x y hs) (hk : x.settings.hostRange.contains k = true) :
    y.repository.get? k = none ∨ y.repository.get? k = x.repository.get? k := by
  by_cases hgone : ∃ h ∈ hs, x.stored? h = some k
  · obtain ⟨h, hmem, hh⟩ := hgone
    exact .inl (hxy.dropped h k hmem hh hk)
  · exact .inr (hxy.kept k hk fun h hmem hh => hgone ⟨h, hmem, hh⟩)

/-- A record of the host that is there was there before, and the import that stored it was not undone. -/
theorem of_present {held : Record} (hxy : Sheds x y hs)
    (hk : x.settings.hostRange.contains k = true) (hget : y.repository.get? k = some held) :
    x.repository.get? k = some held ∧ ∀ h, x.stored? h = some k → y.stored? h = some k := by
  constructor
  · rcases hxy.get?_host hk with hgone | hsame
    · simp [hgone] at hget
    · rw [← hsame, hget]
  · intro h hh
    refine (hxy.stored h k).mpr ⟨hh, fun hmem => ?_⟩
    simp [hxy.dropped h k hmem hh hk] at hget

/-- What has stored nothing has not stored anything since. -/
theorem stored_none (h : Sheds x y hs) {j : RecordHandle} (hnone : x.stored? j = none) :
    y.stored? j = none := by
  rw [Option.eq_none_iff_forall_ne_some]
  intro k hk
  have hbefore := ((h.stored j k).mp hk).1
  simp [hnone] at hbefore

/-- The repository does not change, and the imports in their merges only. -/
theorem noted (h : Sheds x y hs) (hsettings : z.settings = y.settings)
    (hrepository : z.repository = y.repository) (hstored : ∀ j, z.stored? j = y.stored? j)
    (hmerged : ∀ {j k : RecordHandle} {parent children},
      z.imports[j]? = some (.merged parent children k) → y.settings.hostRange.contains k = false) :
    Sheds x z hs where
  parted := h.parted.of_ranges hsettings (by rw [hrepository]) (by rw [hrepository]) hmerged
  settings := hsettings.trans h.settings
  stored j k := by rw [hstored, h.stored]
  dropped j k hmem hk hin := by rw [hrepository, h.dropped j k hmem hk hin]
  kept k hin hnone := by rw [hrepository, h.kept k hin hnone]

/-- Neither the repository nor the imports change. -/
theorem aside (h : Sheds x y hs) (hsettings : z.settings = y.settings)
    (hrepository : z.repository = y.repository) (himports : z.imports = y.imports) : Sheds x z hs :=
  h.noted hsettings hrepository (fun j => by rw [stored?, stored?, himports])
    fun hj => h.parted.merged (himports ▸ hj)

/-- The repository is edited outside the range of the host. -/
theorem edit {r : Repository} (h : Sheds x y hs) (hown : r.ownRange = y.repository.ownRange)
    (hhost : r.hostRange = y.repository.hostRange)
    (hget : ∀ k, y.settings.hostRange.contains k = true → r.get? k = y.repository.get? k) :
    Sheds x { y with repository := r } hs where
  parted := h.parted.of_ranges rfl hown hhost h.parted.merged
  settings := h.settings
  stored := h.stored
  dropped j k hmem hk hin := (hget k (h.settings ▸ hin)).trans (h.dropped j k hmem hk hin)
  kept k hin hnone := (hget k (h.settings ▸ hin)).trans (h.kept k hin hnone)

end Sheds

/-- A handle in the range of the host is not in the controller's own. -/
theorem Parted.not_own (hx : x.Parted) (hk : x.settings.hostRange.contains k = true) :
    x.repository.ownRange.contains k = false := by
  rw [← Bool.not_eq_true]
  intro hown
  have hout := HandleRange.not_contains_of_apart hx.ranges.disjoint hown
  rw [hx.host] at hout
  simp [hk] at hout

theorem Parted.not_settings_own (hx : x.Parted) (hk : x.settings.hostRange.contains k = true) :
    x.settings.ownRange.contains k = false := by
  rw [← Bool.not_eq_true]
  intro hown
  have hout := HandleRange.not_contains_of_apart hx.settings.disjoint hown
  simp [hk] at hout

theorem Parted.not_host (hx : x.Parted) (hk : x.repository.ownRange.contains k = true) :
    x.settings.hostRange.contains k = false := by
  rw [← hx.host]
  exact HandleRange.not_contains_of_apart hx.ranges.disjoint hk

end holdings

section merging

theorem mergeChild_sheds (hx : x.Parted) (node : NodeId) (parent : Entity) (kind : UInt8)
    (child : Entity) : Sheds x (x.mergeChild node parent kind child).1 [] ∧
      ∀ k, (x.mergeChild node parent kind child).2 = .ok (some k) →
        x.settings.hostRange.contains k = false := by
  cases hattach : x.tree.attach node child .host with
  | error e =>
    rw [mergeChild_of_refused hattach]
    exact ⟨.refl hx, by simp⟩
  | ok grown =>
    obtain ⟨tree, placement⟩ := grown
    rw [mergeChild_of_attached hattach]
    have hgrown : Sheds x (x.grow tree placement child) [] :=
      (Sheds.refl hx).aside (by simp) (by simp) (by simp)
    cases hassociate : x.repository.associate parent kind child with
    | error e => exact ⟨hgrown, by simp⟩
    | ok found =>
      obtain ⟨repository, handle, changed⟩ := found
      have hout := hx.not_host (Repository.associate_own hx.ranges.ownProper hassociate)
      obtain ⟨hown, hhost⟩ := Repository.associate_ranges hassociate
      have hlisted : Sheds x { x.grow tree placement child with repository } [] := by
        refine hgrown.edit (by simpa using hown) (by simpa using hhost) fun k hk => ?_
        rw [grow_settings] at hk
        rw [grow_repository]
        refine Repository.get?_of_associate hassociate fun _ heq => ?_
        simp [← heq, hk] at hout
      refine ⟨?_, fun k hk => ?_⟩
      · cases changed
        · exact hlisted
        · exact hlisted.aside rfl rfl rfl
      · simp only [Except.ok.injEq] at hk
        split_ifs at hk
        exact Option.some.inj hk ▸ hout

theorem mergeChildren_sheds (node : NodeId) (parent : Entity) (kind : UInt8) (children : List Entity)
    (hx : x.Parted) :
    Sheds x (mergeChildren node parent kind children x).1 [] ∧
      ∀ new, (mergeChildren node parent kind children x).2 = .ok new →
        ∀ entry ∈ new, x.settings.hostRange.contains entry.2 = false := by
  induction children generalizing x with
  | nil => exact ⟨.refl hx, fun new hnew => by simp [← Except.ok.inj hnew]⟩
  | cons child rest ih =>
    obtain ⟨hchild, hout⟩ := mergeChild_sheds hx node parent kind child
    unfold mergeChildren
    split
    next y e heq =>
      rw [heq] at hchild
      exact ⟨hchild, by simp⟩
    next y record heq =>
      rw [heq] at hchild hout
      obtain ⟨hrest, hmore⟩ := ih hchild.parted
      split
      next z e heq' =>
        rw [heq'] at hrest
        exact ⟨hchild.trans_nil hrest, by simp⟩
      next z more heq' =>
        rw [heq'] at hrest hmore
        refine ⟨hchild.trans_nil hrest, fun new hnew entry hentry => ?_⟩
        obtain rfl := Except.ok.inj hnew
        rcases List.mem_append.mp hentry with hentry | hentry
        · obtain ⟨handle, hhandle, rfl⟩ := Option.map_eq_some_iff.mp (Option.mem_toList.mp hentry)
          exact hout handle (congrArg Except.ok hhandle)
        · exact hchild.settings ▸ hmore more rfl entry hentry

/-- A merge is noted for an import that has stored nothing. -/
theorem merge_sheds (hx : x.Parted) (a : Association) (hnone : x.stored? h = none) :
    Sheds x (x.merge h a).1 [] := by
  rcases x.merge_cases h a with
    heq | ⟨node, parent, y, -, -, ⟨e, hchildren, heq⟩ | ⟨new, hchildren, hcases⟩⟩
  · rw [heq]
    exact (Sheds.refl hx).aside rfl rfl rfl
  all_goals
    have hfound : Sheds x x.findParent [] := (Sheds.refl hx).aside rfl rfl rfl
    obtain ⟨hmerged, hout⟩ := mergeChildren_sheds node parent a.kind a.children hfound.parted
    rw [hchildren] at hmerged hout
    replace hmerged := hfound.trans_nil hmerged
  · rw [heq]
    exact hmerged
  rcases hcases with ⟨-, heq⟩ | ⟨child, k, hmem, heq⟩
  · rw [heq]
    exact hmerged.aside rfl rfl rfl
  · rw [heq]
    have hk : x.settings.hostRange.contains k = false := hout new rfl _ hmem
    refine hmerged.noted rfl rfl (fun j => ?_) fun {j k parent children} hj => ?_
    · simp only [stored?, imports_insert]
      split_ifs with hj
      · rw [hj]
        exact (hmerged.stored_none hnone).symm
      · rfl
    · simp only [imports_insert] at hj
      split_ifs at hj
      · simp only [Option.some.injEq, Import.merged.injEq] at hj
        rw [hmerged.settings, ← hj.2.2]
        exact hk
      · exact hmerged.parted.merged hj

end merging

section undoing

theorem get?_stripAll_of_not_contains {range : HandleRange} (es : List Entity) (r : Repository)
    (hk : range.contains k = false) : (stripAll range es r).1.get? k = r.get? k :=
  stripAll_induction (p := fun s => s.get? k = r.get? k)
    (fun _ e hs => (Repository.get?_strip_of_not_contains e hk).trans hs) es rfl

theorem stripAll_ranges (range : HandleRange) (es : List Entity) (r : Repository) :
    (stripAll range es r).1.ownRange = r.ownRange ∧
      (stripAll range es r).1.hostRange = r.hostRange :=
  stripAll_induction (p := fun s => s.ownRange = r.ownRange ∧ s.hostRange = r.hostRange)
    (fun _ e hs => ⟨(Repository.strip_ownRange e range).trans hs.1,
      (Repository.strip_hostRange e range).trans hs.2⟩) es ⟨rfl, rfl⟩

/-- A merge is taken back out of a record that is not one of the host. -/
theorem unmerge_sheds (hx : x.Parted) (hk : x.settings.hostRange.contains k = false) (child : Entity) :
    Sheds x (x.unmerge k child).1 [] := by
  rcases x.unmerge_cases k child with
    ⟨-, heq⟩ | ⟨id, notices, touched, -, -, -, heq⟩ | ⟨id, -, -, ⟨-, heq⟩ | ⟨entry, -, heq⟩⟩
  · rw [heq]
    exact .refl hx
  · rw [heq]
    obtain ⟨hown, hhost⟩ := stripAll_ranges x.settings.ownRange (x.tree.detach id).2 x.repository
    have hstripped := (Sheds.refl hx).edit hown hhost fun j hj =>
      get?_stripAll_of_not_contains _ _ (hx.not_settings_own hj)
    exact hstripped.aside rfl rfl rfl
  · rw [heq]
    exact .refl hx
  · rw [heq]
    cases hremove : x.repository.removeChild k child with
    | error e => exact .refl hx
    | ok found =>
      obtain ⟨repository, changed⟩ := found
      obtain ⟨hown, hhost⟩ := Repository.removeChild_ranges hremove
      refine (Sheds.refl hx).edit hown hhost fun j hj =>
        Repository.get?_of_removeChild hremove fun _ heq => ?_
      simp [← heq, hj] at hk

theorem Sheds.unmerge (hxy : Sheds x y []) (hk : x.settings.hostRange.contains k = false)
    (child : Entity) : Sheds x (y.unmerge k child).1 [] :=
  hxy.trans_nil (unmerge_sheds hxy.parted (hxy.settings ▸ hk) child)

theorem unmergeAll_sheds (children : List Entity) (hx : x.Parted)
    (hk : x.settings.hostRange.contains k = false) : Sheds x (unmergeAll k children x).1 [] :=
  unmergeAll_induction (p := fun y => Sheds x y []) (fun _ child hy => hy.unmerge hk child) children
    (.refl hx)

theorem retractImports_sheds (imports : List Import) (hx : x.Parted)
    (hmerged : ∀ parent children k, Import.merged parent children k ∈ imports →
      x.settings.hostRange.contains k = false) : Sheds x (retractImports imports x).1 [] :=
  retractImports_induction (p := fun y => Sheds x y [])
    (fun parent children k hmem _ child hy => hy.unmerge (hmerged parent children k hmem) child)
    (.refl hx)

/-- An import is undone, whether it has stored something, merged something or is not there. -/
theorem dropImport_sheds (hx : x.Parted) (h : RecordHandle) : Sheds x (x.dropImport h).1 [h] := by
  have hstored (j k : RecordHandle) :
      ({ x with imports := x.imports.erase h } : Exchange).stored? j = some k ↔
        x.stored? j = some k ∧ j ∉ [h] := by
    simp only [stored?_eq_some, imports_erase, List.mem_singleton]
    split_ifs with hj
    · simp [hj]
    · simp [hj]
  have hmerged {j k : RecordHandle} {parent : Entity} {children : List Entity}
      (hj : (x.imports.erase h)[j]? = some (.merged parent children k)) :
      x.settings.hostRange.contains k = false := by
    rw [imports_erase] at hj
    split_ifs at hj
    exact hx.merged hj
  have herased : ({ x with imports := x.imports.erase h } : Exchange).Parted :=
    hx.of_ranges rfl rfl rfl hmerged
  -- An import that has stored nothing leaves the repository alone at first.
  have hforgot (hnone : ∀ k, x.imports[h]? ≠ some (.stored k)) :
      Sheds x { x with imports := x.imports.erase h } [h] := by
    refine ⟨herased, rfl, hstored, fun j k hmem hk => ?_, fun _ _ _ => rfl⟩
    rw [List.mem_singleton.mp hmem, stored?_eq_some] at hk
    exact absurd hk (hnone k)
  unfold dropImport
  dsimp only
  split
  next heq =>
    refine ⟨hx, rfl, fun j k => ?_, fun j k hmem hk => ?_, fun _ _ _ => rfl⟩
    · rw [List.mem_singleton]
      refine ⟨fun hk => ⟨hk, ?_⟩, And.left⟩
      rintro rfl
      simp [stored?_eq_some, heq] at hk
    · rw [List.mem_singleton.mp hmem, stored?_eq_some, heq] at hk
      simp at hk
  next k heq =>
    have hgone (r : Repository) (hown : r.ownRange = x.repository.ownRange)
        (hhost : r.hostRange = x.repository.hostRange)
        (hget : ∀ j, r.get? j = if j = k then none else x.repository.get? j) (termini : Termini) :
        Sheds x { x with imports := x.imports.erase h, repository := r, termini } [h] := by
      refine ⟨hx.of_ranges rfl hown hhost hmerged, rfl, hstored, fun j i hmem hi _ => ?_,
        fun i hin hnone => ?_⟩
      · rw [List.mem_singleton.mp hmem, stored?_eq_some, heq] at hi
        obtain rfl : k = i := by simpa using hi
        exact (hget k).trans (if_pos rfl)
      · have hne : i ≠ k := by
          rintro rfl
          exact hnone h (List.mem_singleton_self h) (stored?_eq_some.mpr heq)
        exact (hget i).trans (if_neg hne)
    rcases dropStored_cases { x with imports := x.imports.erase h } k with
      ⟨hnone, hsame⟩ | ⟨termini, sensor, herase⟩
    · rw [hsame]
      refine hgone x.repository rfl rfl (fun j => ?_) x.termini
      split_ifs with hj
      · rw [hj]
        exact hnone
      · rfl
    · rw [herase]
      exact hgone (x.repository.erase k) rfl rfl (x.repository.get?_erase k) termini
  next parent children k heq =>
    have hfirst := hforgot fun k hk => by simp [heq] at hk
    have hall := hfirst.trans (unmergeAll_sheds children herased (hx.merged heq))
    split
    next y e heq' => rwa [heq'] at hall
    next y touched heq' => rwa [heq'] at hall

/-- The first import that is to be undone is, even if it makes the repository fail. -/
theorem dropImports_sheds (handles : List RecordHandle) (hx : x.Parted) :
    ∃ gone, Sheds x (dropImports handles x).1 gone ∧ ∀ h ∈ handles.head?, h ∈ gone := by
  induction handles generalizing x with
  | nil => exact ⟨[], .refl hx, by simp⟩
  | cons h rest ih =>
    have hfirst := dropImport_sheds hx h
    unfold dropImports
    split
    next y e heq =>
      rw [heq] at hfirst
      exact ⟨[h], hfirst, by simp⟩
    next y touched sensor heq =>
      rw [heq] at hfirst
      obtain ⟨gone, hrest, -⟩ := ih hfirst.parted
      refine ⟨[h] ++ gone, ?_, by simp⟩
      have hall := hfirst.trans hrest
      split
      next z e heq' => rwa [heq'] at hall
      next z more sensors heq' => rwa [heq'] at hall

theorem forget_sheds (handles : List RecordHandle) (hx : x.Parted) :
    ∃ gone, Sheds x (x.forget handles).1 gone ∧ ∀ h ∈ handles.head?, h ∈ gone := by
  obtain ⟨gone, hdropped, hfirst⟩ := dropImports_sheds handles hx
  refine ⟨gone, ?_, hfirst⟩
  unfold forget
  split
  next y e heq => rwa [heq] at hdropped
  next y touched sensors heq =>
    rw [heq] at hdropped
    dsimp only
    split_ifs
    · exact hdropped.aside rfl rfl rfl
    · exact hdropped

end undoing

section filing

variable {record : Bytes}

theorem Stores.parted (h : Stores x y k record) (hx : x.Parted) : y.Parted := by
  obtain ⟨made, hinsert, himports⟩ := h.made
  obtain ⟨_, _, _, -, -, -, hrepository⟩ := Repository.insert_eq_ok.mp hinsert
  refine hx.of_ranges h.settings (by rw [hrepository, Repository.put_ownRange])
    (by rw [hrepository, Repository.put_hostRange]) fun hj => ?_
  simp only [himports, imports_insert] at hj
  split_ifs at hj
  · simp at hj
  · exact hx.merged hj

theorem store_stores (hx : x.Parted) (h : RecordHandle) (record : Bytes) :
    Sheds x (x.store h record).1 [] ∨ Stores x (x.store h record).1 h record := by
  unfold store
  cases hinsert : x.repository.insert .host record with
  | error e => exact .inl (.refl hx)
  | ok made =>
    obtain ⟨repository, k⟩ := made
    exact .inr ⟨rfl, k, hinsert, rfl⟩

theorem classify_stores (hx : x.Parted) {header : RecordHeader} (record : Bytes)
    (hnone : x.stored? header.handle = none) :
    Sheds x (x.classify header record).1 [] ∨
      Stores x (x.classify header record).1 header.handle record := by
  rcases classify_uniform header record with hskip | ⟨⟨_, a⟩, -, hmerge⟩ | ⟨note, -, hstore⟩
  · rw [hskip]
    exact .inl ((Sheds.refl hx).aside rfl rfl rfl)
  · rw [hmerge]
    exact .inl (merge_sheds hx a hnone)
  · rw [hstore]
    have hnoted : Sheds x { x with termini := note x.termini } [] := (Sheds.refl hx).aside rfl rfl rfl
    refine (store_stores hnoted.parted header.handle record).imp hnoted.trans_nil fun hstores => ?_
    exact ⟨hstores.settings, hstores.made⟩

/-- What an import has stored for the handle of a record goes, and then the record is stored for it or
nothing is. -/
def Files (x : Exchange) (record : Bytes) (y : Exchange) : Prop :=
  ∃ gone bare filed, Sheds x bare gone ∧
    (∀ h, ownHandle? record = some h → bare.stored? h = none) ∧
    (filed = bare ∨ ∃ h, ownHandle? record = some h ∧ Stores bare filed h record) ∧ Sheds filed y []

theorem Files.parted (h : Files x record y) : y.Parted :=
  let ⟨_, _, _, _, _, _, hy⟩ := h
  hy.parted

theorem Files.trans_sheds (hxy : Files x record y) (hyz : Sheds y z []) : Files x record z := by
  obtain ⟨gone, bare, filed, hbare, hnone, hfiled, hy⟩ := hxy
  exact ⟨gone, bare, filed, hbare, hnone, hfiled, hy.trans_nil hyz⟩

theorem importRecord_files (hx : x.Parted) (record : Bytes) :
    Files x record (x.importRecord record).1 := by
  rcases x.importRecord_cases record with ⟨e, hsplit, heq⟩ | ⟨header, body, hsplit, hcases⟩
  · have hskip : Sheds x x.skip [] := (Sheds.refl hx).aside rfl rfl rfl
    rw [heq]
    exact ⟨[], x.skip, x.skip, hskip, fun h hh => by simp [ownHandle?, hsplit, Except.toOption] at hh,
      .inl rfl, .refl hskip.parted⟩
  have hown : ownHandle? record = some header.handle := by
    simp only [ownHandle?, hsplit]
    rfl
  -- Once nothing is stored for the handle of the record, it is sorted by its type.
  have hclassify {bare : Exchange} {gone : List RecordHandle} (hbare : Sheds x bare gone)
      (hnone : bare.stored? header.handle = none) : Files x record (bare.classify header record).1 := by
    have hfree (h : RecordHandle) (hh : ownHandle? record = some h) : bare.stored? h = none := by
      rw [hown] at hh
      exact Option.some.inj hh ▸ hnone
    rcases classify_stores hbare.parted record hnone with hsheds | hstores
    · exact ⟨gone, bare, bare, hbare, hfree, .inl rfl, hsheds⟩
    · exact ⟨gone, bare, _, hbare, hfree, .inr ⟨header.handle, hown, hstores⟩,
        .refl (hstores.parted hbare.parted)⟩
  have hseen : Sheds x (x.see header.handle) [] := (Sheds.refl hx).aside rfl rfl rfl
  rcases hcases with ⟨hnew, heq⟩ | ⟨-, hcases⟩
  · rw [heq]
    refine hclassify hseen ?_
    have hnone : x.imports[header.handle]? = none := Std.ExtTreeMap.getElem?_eq_none hnew
    exact hseen.stored_none (by simp [stored?, hnone])
  · obtain ⟨gone, hforgot, hfirst⟩ := forget_sheds [header.handle] hseen.parted
    have hgone : header.handle ∈ gone := hfirst header.handle rfl
    have hnone : ((x.see header.handle).forget [header.handle]).1.stored? header.handle = none := by
      rw [Option.eq_none_iff_forall_ne_some]
      intro k hk
      exact ((hforgot.stored header.handle k).mp hk).2 hgone
    replace hforgot := hseen.trans_nil hforgot
    rcases hcases with ⟨bare, e, hforget, heq⟩ | ⟨bare, touched, hforget, heq⟩
    · rw [hforget] at hforgot hnone
      rw [heq]
      refine ⟨gone, bare, bare, hforgot, fun h hh => ?_, .inl rfl, .refl hforgot.parted⟩
      rw [hown] at hh
      exact Option.some.inj hh ▸ hnone
    · rw [hforget] at hforgot hnone
      rw [heq]
      exact hclassify (hforgot.aside rfl rfl rfl) hnone

end filing

section calls

theorem completed_sheds (hx : x.Parted) : Sheds x x.completed [] := by
  have hfixed := (applyFixups_alike x.settings x.settings.fixups x.repository).rewritten
  have hedited := (Sheds.refl hx).edit hfixed.ownRange hfixed.hostRange fun k hk =>
    get?_applyFixups x.settings x.settings.fixups (.inl (hx.not_own hk))
  exact hedited.aside rfl rfl rfl

theorem advance_sheds (hx : x.Parted) (next : RecordHandle) : Sheds x (x.advance next).1 [] := by
  obtain ⟨y, result, h⟩ : ∃ y result, x.advance next = (y, result) := ⟨_, _, rfl⟩
  rw [h]
  rcases advance_cases h with ⟨-, rfl, -⟩ | ⟨c, -, ⟨rfl, -⟩ | ⟨rfl, -⟩ | ⟨rfl, -⟩⟩
  · exact .refl hx
  · exact (Sheds.refl hx).aside rfl rfl rfl
  · have hfollowed : Sheds x { x with cycle := some (c.follow next) } [] :=
      (Sheds.refl hx).aside rfl rfl rfl
    exact hfollowed.trans_nil (completed_sheds hfollowed.parted)
  · exact (Sheds.refl hx).aside rfl rfl rfl

/-- The record that a call imports. -/
def taken? (x : Exchange) : Call → Option Bytes
  | .receive cycle answer => do
    let handle ← x.awaited? cycle
    let (record, _) ← (readAnswer handle answer).toOption
    return record
  | _ => none

/-- What a call that imports a record, or none, does to the holdings. -/
inductive Turnover (x : Exchange) : Option Bytes → Exchange → Prop
  | drops {y : Exchange} {gone : List RecordHandle} (h : Sheds x y gone) : Turnover x none y
  | files {y : Exchange} {record : Bytes} (h : Files x record y) : Turnover x (some record) y
  | marks {y : Exchange} (hsettings : y.settings = x.settings) (himports : y.imports = x.imports)
      (h : x.repository.Marks y.repository) : Turnover x none y
  | clears {y : Exchange} (h : Empties x y) : Turnover x none y

theorem receive_turnover (hx : x.Parted) (cycle : CycleId) (answer : Except RequestError Bytes) :
    Turnover x (x.taken? (.receive cycle answer)) (x.receive cycle answer).1 := by
  cases hawaited : x.awaited? cycle with
  | none =>
    have htaken : x.taken? (.receive cycle answer) = none := by simp [taken?, hawaited]
    rw [htaken, receive_of_stray hawaited answer]
    exact .drops ((Sheds.refl hx).aside rfl rfl rfl)
  | some handle =>
    obtain ⟨c, hc, rfl, hflight⟩ := awaited?_eq_some.mp hawaited
    have hanswered : Sheds x (x.answered c) [] := (Sheds.refl hx).aside rfl rfl rfl
    obtain ⟨y, result, h⟩ : ∃ y result, x.receive c.id answer = (y, result) := ⟨_, _, rfl⟩
    rw [h]
    have htaken {record : Bytes} {next : RecordHandle}
        (hread : readAnswer handle answer = .ok (record, next)) :
        x.taken? (.receive c.id answer) = some record := by
      simp [taken?, hawaited, hread, Except.toOption]
    have hfiles (record : Bytes) : Files x record ((x.answered c).importRecord record).1 := by
      obtain ⟨gone, bare, filed, hbare, hrest⟩ := importRecord_files hanswered.parted record
      exact ⟨gone, bare, filed, hanswered.trans_nil hbare, hrest⟩
    rcases receive_of_inFlight hc hflight h with
      ⟨e, hread, rfl, -⟩ | ⟨record, next, hread, ⟨z, e, himport, rfl, -⟩ | ⟨z, himport, hadvance⟩⟩
    · have hnone : x.taken? (.receive c.id answer) = none := by
        simp [taken?, hawaited, hread, Except.toOption]
      rw [hnone]
      exact .drops (hanswered.aside rfl rfl rfl)
    · have hz := hfiles record
      rw [himport] at hz
      rw [htaken hread]
      exact .files (hz.trans_sheds ((Sheds.refl hz.parted).aside rfl rfl rfl))
    · have hz := hfiles record
      rw [himport] at hz
      have hy := advance_sheds hz.parted next
      rw [hadvance] at hy
      rw [htaken hread]
      exact .files (hz.trans_sheds hy)

theorem beginResync_empties (hx : x.Parted) : Empties x x.beginResync.1 := by
  let begun := (x.startCycle .chain [RecordHandle.terminator]).1
  have hbare : ({ begun with imports := ∅ } : Exchange).Parted :=
    hx.of_ranges rfl rfl rfl fun hj => by simp at hj
  have hretracted := retractImports_sheds (begun.imports.toList.map Prod.snd) hbare
    fun parent children k hmem => by
      obtain ⟨⟨h, i⟩, hentry, rfl⟩ := List.mem_map.mp hmem
      exact hx.merged (Std.ExtTreeMap.mem_toList_iff_getElem?_eq_some.mp hentry)
  obtain ⟨y, retracted, hy⟩ : ∃ y retracted, begun.retractMerges = (y, retracted) := ⟨_, _, rfl⟩
  rw [show retractImports _ _ = (y, retracted) from hy] at hretracted
  have hresync : x.beginResync.1 = (({ y with
      repository := (y.repository.removeRange y.settings.hostRange).1
      termini := ∅
      phase := .awaitingFirstRecord }.touch retracted).touch
        ((y.repository.removeRange y.settings.hostRange).2.map Prod.fst)) := by
    simp only [beginResync]
    rw [hy]
  have hnone (h : RecordHandle) : y.stored? h = none := hretracted.stored_none (by simp [stored?])
  rw [hresync]
  refine ⟨?_, hretracted.settings, hnone, fun k hk => ?_⟩
  · exact hretracted.parted.of_ranges rfl (Repository.removeRange_ownRange _ _)
      (Repository.removeRange_hostRange _ _) hretracted.parted.merged
  · refine (Repository.get?_removeRange _ _ k).trans (if_pos ?_)
    rw [hretracted.settings]
    exact hk

theorem invalidateTermini_marks (x : Exchange) :
    x.repository.Marks x.invalidateTermini.1.repository :=
  invalidateTermini_induction (fun r i hr => hr.trans (r.setLocatorValidity_marks i false))
    (.refl x.repository)

theorem after_turnover (hx : x.Parted) (call : Call) : Turnover x (x.taken? call) (x.after call) := by
  cases call with
  | resync => exact .clears (beginResync_empties hx)
  | fetch handles =>
    rcases x.beginFetch_cases handles with ⟨c, -, heq⟩ | ⟨-, heq⟩ | ⟨-, phase, heq⟩
    all_goals
      rw [after, heq]
      exact .drops ((Sheds.refl hx).aside rfl rfl rfl)
  | request =>
    rcases x.nextRequest_cases with heq | heq | ⟨c, handle, rest, phase, -, -, -, heq⟩
    all_goals
      rw [after, heq]
      exact .drops ((Sheds.refl hx).aside rfl rfl rfl)
  | receive cycle answer => exact receive_turnover hx cycle answer
  | forget handles =>
    obtain ⟨gone, hforgot, -⟩ := forget_sheds handles hx
    exact .drops hforgot
  | hostDown =>
    exact .marks x.invalidateTermini_settings x.invalidateTermini_imports x.invalidateTermini_marks
  | link up => exact .drops ((Sheds.refl hx).aside rfl rfl rfl)

theorem Turnover.parted {taken : Option Bytes} (hx : x.Parted) (h : Turnover x taken y) : y.Parted := by
  cases h with
  | drops h => exact h.parted
  | files h => exact h.parted
  | marks hsettings himports h =>
    exact hx.of_ranges hsettings h.ownRange h.hostRange fun hj => hx.merged (himports ▸ hj)
  | clears h => exact h.parted

end calls

end DescriptorExchange.Exchange
