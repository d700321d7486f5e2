import DescriptorExchange.Proofs.Exchange.Calls
import DescriptorExchange.Proofs.Repository.Frame

/-!
Every step of an import accounts for what it does to the repository: a record that differs
afterwards is either noted in the running cycle or among the handles the step hands back to be
noted.
-/
namespace DescriptorExchange.Exchange

/-- The running cycle goes on from `x` to `y`, and every record that differs is noted in it or
listed. -/
structure Accounts (x y : Exchange) (handles : List RecordHandle) : Prop where
  fixed : y.fixed = x.fixed
  cycle : ∀ d, y.cycle = some d → ∃ c, x.cycle = some c ∧ d.id = c.id ∧ d.before = c.before ∧
    (∀ h ∈ c.touched, h ∈ d.touched) ∧
    ∀ h, h ∉ handles → h ∉ d.touched → y.repository.get? h = x.repository.get? h

variable {x y z : Exchange} {hs ks : List RecordHandle}

namespace Accounts

theorem of_get? (hfixed : y.fixed = x.fixed) (hcycle : y.cycle = x.cycle)
    (hget : ∀ h, h ∉ hs → y.repository.get? h = x.repository.get? h) : Accounts x y hs where
  fixed := hfixed
  cycle d hd := ⟨d, hcycle ▸ hd, rfl, rfl, fun _ h => h, fun h hn _ => hget h hn⟩

theorem refl (x : Exchange) : Accounts x x [] := of_get? rfl rfl fun _ _ => rfl

theorem mono (h : Accounts x y hs) (hsub : ∀ k ∈ hs, k ∈ ks) : Accounts x y ks where
  fixed := h.fixed
  cycle d hd := by
    obtain ⟨c, hc, hid, hbefore, htouched, hget⟩ := h.cycle d hd
    exact ⟨c, hc, hid, hbefore, htouched, fun k hk => hget k fun hk' => hk (hsub k hk')⟩

theorem trans (hxy : Accounts x y hs) (hyz : Accounts y z ks) : Accounts x z (hs ++ ks) where
  fixed := hyz.fixed.trans hxy.fixed
  cycle e he := by
    obtain ⟨d, hd, hid, hbefore, htouched, hget⟩ := hyz.cycle e he
    obtain ⟨c, hc, hid', hbefore', htouched', hget'⟩ := hxy.cycle d hd
    refine ⟨c, hc, hid.trans hid', hbefore.trans hbefore', fun h hh => htouched h (htouched' h hh),
      fun h hh ht => ?_⟩
    rw [List.mem_append, not_or] at hh
    exact (hget h hh.2 ht).trans (hget' h hh.1 fun hd => ht (htouched h hd))

theorem trans_nil (hxy : Accounts x y []) (hyz : Accounts y z ks) : Accounts x z ks := hxy.trans hyz

/-- A change to what the cycle remembers besides its notes. -/
theorem mapCycle (h : Accounts x y hs) {f : Cycle → Cycle} (hid : ∀ c, (f c).id = c.id)
    (hbefore : ∀ c, (f c).before = c.before) (htouched : ∀ c, (f c).touched = c.touched) :
    Accounts x (y.mapCycle f) hs where
  fixed := h.fixed
  cycle e he := by
    obtain ⟨d, hd, rfl⟩ := Option.map_eq_some_iff.mp he
    obtain ⟨c, hc, hid', hbefore', htouched', hget⟩ := h.cycle d hd
    exact ⟨c, hc, (hid d).trans hid', (hbefore d).trans hbefore',
      fun k hk => htouched d ▸ htouched' k hk,
      fun k hk ht => hget k hk (htouched d ▸ ht)⟩

/-- Handles that are noted need not be handed on. -/
theorem touch {ls : List RecordHandle} (h : Accounts x y hs) (hsub : ∀ k ∈ hs, k ∈ ks ∨ k ∈ ls) :
    Accounts x (y.touch ks) ls where
  fixed := h.fixed
  cycle e he := by
    obtain ⟨d, hd, rfl⟩ := Option.map_eq_some_iff.mp he
    obtain ⟨c, hc, hid, hbefore, htouched, hget⟩ := h.cycle d hd
    have hmem (k : RecordHandle) : k ∈ d.touched.insertMany ks ↔ k ∈ d.touched ∨ k ∈ ks := by
      simp [Std.ExtTreeSet.mem_insertMany_list]
    refine ⟨c, hc, hid, hbefore, fun k hk => (hmem k).mpr (.inl (htouched k hk)), fun k hk ht => ?_⟩
    rw [hmem, not_or] at ht
    exact hget k (fun hk' => (hsub k hk').elim ht.2 hk) ht.1

end Accounts

theorem skip_accounts (x : Exchange) : Accounts x x.skip [] := .of_get? rfl rfl fun _ _ => rfl

theorem publishSensors_accounts (x : Exchange) : Accounts x x.publishSensors [] :=
  .of_get? rfl rfl fun _ _ => rfl

theorem mergeChild_accounts (x : Exchange) (node : NodeId) (parent : Entity) (kind : UInt8)
    (child : Entity) : Accounts x (x.mergeChild node parent kind child).1 [] := by
  cases ht : x.tree.attach node child .host with
  | error e =>
    rw [mergeChild_of_refused ht]
    exact .refl x
  | ok grown =>
    obtain ⟨tree, placement⟩ := grown
    rw [mergeChild_of_attached ht]
    cases ha : x.repository.associate parent kind child with
    | error e => exact .of_get? (by simp) (by simp) fun h _ => by simp
    | ok found =>
      obtain ⟨repository, handle, changed⟩ := found
      have hlisted : Accounts x { x.grow tree placement child with repository }
          (if changed then [handle] else []) :=
        .of_get? (x.grow_fixed tree placement child) (by simp) fun h hh =>
          Repository.get?_of_associate ha fun hc => by simpa [hc] using hh
      cases changed with
      | false => exact hlisted
      | true => exact hlisted.touch fun _ h => .inl h

theorem merge_accounts (x : Exchange) (hostHandle : RecordHandle) (a : Association) :
    Accounts x (x.merge hostHandle a).1 [] :=
  merge_induction (p := (Accounts x · [])) x.skip_accounts
    ((Accounts.refl x).mapCycle (fun _ => rfl) (fun _ => rfl) fun _ => rfl)
    (fun node parent y child hy => hy.trans_nil (mergeChild_accounts y node parent a.kind child))
    fun _ _ hy => hy.trans_nil (.of_get? rfl rfl fun _ _ => rfl)

/-- A merge taken back hands over the records it changed; one that fails has changed nothing. -/
theorem unmerge_accounts (x : Exchange) (record : RecordHandle) (child : Entity) :
    Accounts x (x.unmerge record child).1 ((x.unmerge record child).2.toOption.getD []) := by
  rcases x.unmerge_cases record child with
    ⟨-, h⟩ | ⟨id, notices, touched, -, -, hstrip, h⟩ | ⟨id, -, -, ⟨-, h⟩ | ⟨entry, -, h⟩⟩
  · rw [h]
    exact .refl x
  · rw [h]
    exact .of_get? rfl rfl fun k hk => get?_stripAll hstrip hk
  · rw [h]
    exact .refl x
  · rw [h]
    cases hr : x.repository.removeChild record child with
    | error e => exact .refl x
    | ok found =>
      obtain ⟨repository, changed⟩ := found
      refine .of_get? rfl rfl fun k hk => Repository.get?_of_removeChild hr fun hc => ?_
      simpa [Except.toOption, hc] using hk

theorem unmergeAll_accounts {record : RecordHandle} {children : List Entity}
    {touched : List RecordHandle}
    (h : unmergeAll record children x = (y, .ok touched)) : Accounts x y touched := by
  induction children generalizing x touched with
  | nil =>
    obtain ⟨rfl, rfl⟩ : x = y ∧ [] = touched := by simpa [unmergeAll] using h
    exact .refl x
  | cons child rest ih =>
    have hchild := unmerge_accounts x record child
    unfold unmergeAll at h
    split at h
    next => simp at h
    next mid first heq =>
      rw [heq] at hchild
      split at h
      next => simp at h
      next last more heq' =>
        obtain ⟨rfl, rfl⟩ : last = y ∧ first ++ more = touched := by simpa using h
        exact hchild.trans (ih heq')

theorem retractChildren_accounts (record : RecordHandle) (children : List Entity) (x : Exchange) :
    Accounts x (retractChildren record children x).1 (retractChildren record children x).2 := by
  induction children generalizing x with
  | nil => exact .refl x
  | cons child rest ih => exact (unmerge_accounts x record child).trans (ih _)

theorem retractImports_accounts (imports : List Import) (x : Exchange) :
    Accounts x (retractImports imports x).1 (retractImports imports x).2 := by
  induction imports generalizing x with
  | nil => exact .refl x
  | cons i rest ih =>
    cases i with
    | stored handle => exact ih x
    | merged parent children record =>
      exact (retractChildren_accounts record children x).trans (ih _)

theorem retractMerges_accounts (x : Exchange) : Accounts x x.retractMerges.1 x.retractMerges.2 := by
  have hforget : Accounts x { x with imports := ∅ } [] := .of_get? rfl rfl fun _ _ => rfl
  exact hforget.trans_nil (retractImports_accounts (x.imports.toList.map Prod.snd) _)

theorem dropStored_accounts (x : Exchange) (handle : RecordHandle) :
    Accounts x (x.dropStored handle).1 (x.dropStored handle).2.1 := by
  have hget (k : RecordHandle) (hk : k ∉ [handle]) :
      (x.repository.erase handle).get? k = x.repository.get? k := by
    rw [Repository.get?_erase, if_neg (by simpa using hk)]
  rcases x.dropStored_cases handle with ⟨-, heq⟩ | ⟨termini, sensor, heq⟩
  · rw [heq]
    exact .refl x
  · rw [heq]
    exact .of_get? rfl rfl hget

theorem dropImport_accounts {hostHandle : RecordHandle} {touched : List RecordHandle}
    {sensor : Bool}
    (h : x.dropImport hostHandle = (y, .ok (touched, sensor))) : Accounts x y touched := by
  have hforget : Accounts x { x with imports := x.imports.erase hostHandle } [] :=
    .of_get? rfl rfl fun _ _ => rfl
  simp only [dropImport] at h
  split at h
  next =>
    obtain ⟨rfl, rfl, -⟩ : x = y ∧ [] = touched ∧ _ := by simpa using h
    exact .refl x
  next handle _ =>
    simp only [Prod.mk.injEq, Except.ok.injEq] at h
    obtain ⟨rfl, rfl, -⟩ := h
    exact hforget.trans_nil (dropStored_accounts _ handle)
  next children record _ =>
    split at h
    next => simp at h
    next rest more heq =>
      obtain ⟨rfl, rfl, -⟩ : rest = y ∧ more = touched ∧ _ := by simpa using h
      exact hforget.trans_nil (unmergeAll_accounts heq)

theorem dropImports_accounts {handles touched : List RecordHandle} {sensors : Bool}
    (h : dropImports handles x = (y, .ok (touched, sensors))) : Accounts x y touched := by
  induction handles generalizing x touched sensors with
  | nil =>
    obtain ⟨rfl, rfl, -⟩ : x = y ∧ [] = touched ∧ _ := by simpa [dropImports] using h
    exact .refl x
  | cons handle rest ih =>
    unfold dropImports at h
    split at h
    next => simp at h
    next mid first sensor heq =>
      split at h
      next => simp at h
      next last more sensors' heq' =>
        obtain ⟨rfl, rfl, -⟩ : last = y ∧ first ++ more = touched ∧ _ := by simpa using h
        exact (dropImport_accounts heq).trans (ih heq')

theorem forget_accounts {handles : List RecordHandle} {touched : HandleSet}
    (h : x.forget handles = (y, .ok touched)) : Accounts x y touched.toList := by
  unfold forget at h
  split at h
  next => simp at h
  next rest listed sensors heq =>
    simp only [Prod.mk.injEq, Except.ok.injEq] at h
    obtain ⟨rfl, rfl⟩ := h
    have hdrop : Accounts x rest (Std.ExtTreeSet.ofList listed).toList :=
      (dropImports_accounts heq).mono fun k hk => by simpa using hk
    split_ifs
    · exact (hdrop.trans rest.publishSensors_accounts).mono fun k hk => by simpa using hk
    · exact hdrop

theorem store_accounts {hostHandle : RecordHandle} {record : Bytes}
    (h : x.store hostHandle record = (y, .ok ())) : Accounts x y [] := by
  unfold store at h
  split at h
  next => simp at h
  next repository handle heq =>
    obtain ⟨rfl, -⟩ := Prod.mk.inj h
    have hkept : Accounts x
        { x with
          repository
          imports := x.imports.insert hostHandle (.stored handle)
          counts.stored := x.counts.stored + 1 } [handle] :=
      .of_get? rfl rfl fun k hk => Repository.get?_of_insert heq (by simpa using hk)
    exact hkept.touch fun _ h => .inl h

theorem classify_accounts {header : RecordHeader} {record : Bytes}
    (h : x.classify header record = (y, .ok ())) : Accounts x y [] := by
  rcases classify_uniform header record with hskip | ⟨⟨_, a⟩, -, hmerge⟩ | ⟨note, -, hstore⟩
  · rw [hskip] at h
    obtain ⟨rfl, -⟩ := Prod.mk.inj h
    exact x.skip_accounts
  · have hm := merge_accounts x header.handle a
    rwa [← hmerge, h] at hm
  · have hnoted : Accounts x { x with termini := note x.termini } [] :=
      .of_get? rfl rfl fun _ _ => rfl
    exact hnoted.trans_nil (store_accounts (hstore x ▸ h))

/-- An imported record has all its changes noted in the running cycle. -/
theorem importRecord_accounts {record : Bytes} (h : x.importRecord record = (y, .ok ())) :
    Accounts x y [] := by
  rcases x.importRecord_cases record with ⟨e, -, heq⟩ | ⟨header, body, -, hcases⟩
  · obtain ⟨rfl, -⟩ := Prod.mk.inj (heq.symm.trans h)
    exact x.skip_accounts
  have hseen : Accounts x (x.see header.handle) [] :=
    (Accounts.refl x).mapCycle (fun _ => rfl) (fun _ => rfl) fun _ => rfl
  rcases hcases with ⟨-, heq⟩ | ⟨-, ⟨mid, e, -, heq⟩ | ⟨mid, touched, hforget, heq⟩⟩
  · exact hseen.trans_nil (classify_accounts (heq ▸ h))
  · simp [heq] at h
  · have hforgot : Accounts x (mid.touch touched.toList) [] :=
      (hseen.trans_nil (forget_accounts hforget)).touch fun _ h => .inl h
    exact hforgot.trans_nil (classify_accounts (heq ▸ h))

end DescriptorExchange.Exchange
