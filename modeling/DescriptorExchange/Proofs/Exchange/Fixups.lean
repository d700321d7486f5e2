import DescriptorExchange.Proofs.Exchange.Completing
import DescriptorExchange.Proofs.Repository.Overlay

/-!
Container fix-ups. A fix-up finds its effecter whatever containers have been copied into effecters
before, and leaves no trace of the container that was there. So of several fix-ups of one effecter
the last one decides, and fix-ups that are applied once more change nothing.
-/
namespace DescriptorExchange

namespace Record

variable {x y z : Record} {id c : UInt16}

/-- The record with another container, where the container can be replaced. -/
def contained (x : Record) (c : UInt16) : Record :=
  { x with bytes := (StateEffecter.setContainer c x.bytes).toOption.getD x.bytes }

/-- Records that differ in the container of an effecter at most. -/
structure Alike (x y : Record) : Prop where
  isEffecter : ∀ id, y.isEffecter id = x.isEffecter id
  contained : ∀ c, y.contained c = x.contained c

theorem Alike.refl (x : Record) : Alike x x := ⟨fun _ => rfl, fun _ => rfl⟩

theorem Alike.symm (h : Alike x y) : Alike y x where
  isEffecter id := (h.isEffecter id).symm
  contained c := (h.contained c).symm

theorem Alike.trans (hxy : Alike x y) (hyz : Alike y z) : Alike x z where
  isEffecter id := (hyz.isEffecter id).trans (hxy.isEffecter id)
  contained c := (hyz.contained c).trans (hxy.contained c)

theorem alike_contained (h : x.isEffecter id = true) (c : UInt16) : Alike x (x.contained c) := by
  obtain ⟨htype, header, e, hdecode, rfl⟩ := isEffecter_eq_true.mp h
  obtain ⟨patched, hset, hpatched, hlater⟩ := StateEffecter.setContainer_spec hdecode c
  have hbytes : (x.contained c).bytes = patched := by
    simp only [contained, hset, Except.toOption, Option.getD_some]
  refine ⟨fun id => ?_, fun d => ?_⟩
  · simp only [isEffecter, hbytes, hpatched, hdecode]
    rfl
  · obtain ⟨other, hother, -⟩ := StateEffecter.setContainer_spec hdecode d
    simp only [contained, hset, hlater, hother, Except.toOption, Option.getD_some]

end Record

namespace Repository

variable {r s t : Repository} {k : RecordHandle} {id c : UInt16}

/-- Under the handle is an effecter record of the controller's own for this effecter. -/
def Carries (r : Repository) (id : UInt16) (k : RecordHandle) : Prop :=
  r.ownRange.contains k = true ∧ ∃ x, r.get? k = some x ∧ x.isEffecter id = true

/-- The record that a fix-up of an effecter changes. -/
def effecter? (r : Repository) (id : UInt16) : Option RecordHandle :=
  ((r.inRange r.ownRange).find? fun entry => entry.2.isEffecter id).map Prod.fst

theorem effecter?_eq_some :
    r.effecter? id = some k ↔ r.Carries id k ∧ ∀ j, r.Carries id j → k ≤ j := by
  have hsorted : (r.inRange r.ownRange).Pairwise fun a b => a.1 < b.1 := r.toList_pairwise.filter _
  unfold effecter? Carries
  rw [Sorted.find?_key_eq_some_iff hsorted]
  simp only [mem_inRange]
  constructor
  · rintro ⟨⟨x, ⟨hget, hin⟩, hid⟩, hmin⟩
    refine ⟨⟨hin, x, hget, hid⟩, ?_⟩
    rintro j ⟨hin', y, hget', hid'⟩
    exact hmin j y ⟨hget', hin'⟩ hid'
  · rintro ⟨⟨hin, x, hget, hid⟩, hmin⟩
    refine ⟨⟨x, ⟨hget, hin⟩, hid⟩, ?_⟩
    rintro j y ⟨hget', hin'⟩ hid'
    exact hmin j ⟨hin', y, hget', hid'⟩

/-- A fix-up replaces the container in the one record it is about. -/
theorem get?_setEffecterContainer (r : Repository) (id c : UInt16) (k : RecordHandle) :
    (r.setEffecterContainer id c).1.get? k =
      if r.effecter? id = some k then (r.get? k).map (·.contained c) else r.get? k := by
  rw [setEffecterContainer_def, effecter?]
  cases hx : (r.inRange r.ownRange).find? fun entry => entry.2.isEffecter id with
  | none => simp
  | some found =>
    obtain ⟨j, x⟩ := found
    obtain ⟨hget, -⟩ := mem_inRange.mp (List.mem_of_find?_eq_some hx)
    simp only [Option.map_some, Option.some.injEq]
    by_cases hjk : j = k
    · subst hjk
      rw [if_pos rfl, hget, Option.map_some, Record.contained]
      cases hset : StateEffecter.setContainer c x.bytes with
      | error e => exact hget
      | ok bytes =>
        simp only [Except.toOption, Option.getD_some]
        split_ifs with hsame
        · rw [hget, hsame]
        · exact get?_put_self _ _ _
    · rw [if_neg hjk]
      cases StateEffecter.setContainer c x.bytes with
      | error e => rfl
      | ok bytes =>
        dsimp only
        split_ifs
        · rfl
        · exact get?_put_ne _ _ fun heq => hjk heq.symm

/-- Repositories that differ in the containers of effecters at most. -/
structure Alike (r s : Repository) : Prop where
  rewritten : Rewritten r s
  records : ∀ {k x y}, r.get? k = some x → s.get? k = some y → x.Alike y

namespace Alike

theorem refl (r : Repository) : Alike r r where
  rewritten := .refl r
  records {k x y} hx hy := by
    obtain rfl := Option.some.inj (hx.symm.trans hy)
    exact .refl x

theorem symm (h : Alike r s) : Alike s r where
  rewritten := h.rewritten.symm
  records hx hy := (h.records hy hx).symm

/-- Under a handle both have a record or neither has. -/
theorem get? (h : Alike r s) (k : RecordHandle) : (r.get? k = none ∧ s.get? k = none) ∨
    ∃ x y, r.get? k = some x ∧ s.get? k = some y ∧ x.Alike y := by
  have hsome := h.rewritten.isSome_get? k
  cases hx : r.get? k with
  | none => exact .inl ⟨rfl, by simpa [hx] using hsome⟩
  | some x =>
    obtain ⟨y, hy⟩ := Option.isSome_iff_exists.mp (hsome.trans (by rw [hx, Option.isSome_some]))
    exact .inr ⟨x, y, rfl, hy, h.records hx hy⟩

theorem trans (hrs : Alike r s) (hst : Alike s t) : Alike r t where
  rewritten := hrs.rewritten.trans hst.rewritten
  records {k x z} hx hz := by
    rcases hrs.get? k with ⟨hnone, -⟩ | ⟨x', y, hx', hy, hxy⟩
    · simp [hx] at hnone
    · obtain rfl := Option.some.inj (hx.symm.trans hx')
      exact hxy.trans (hst.records hy hz)

theorem carries (h : Alike r s) : s.Carries id k ↔ r.Carries id k := by
  simp only [Carries, h.rewritten.ownRange]
  apply and_congr_right
  intro _
  rcases h.get? k with ⟨hx, hy⟩ | ⟨x, y, hx, hy, hxy⟩
  · simp [hx, hy]
  · simp [hx, hy, hxy.isEffecter]

theorem effecter? (h : Alike r s) (id : UInt16) : s.effecter? id = r.effecter? id := by
  apply Option.ext
  intro k
  simp only [effecter?_eq_some, h.carries]

end Alike

theorem alike_setEffecterContainer (r : Repository) (id c : UInt16) :
    Alike r (r.setEffecterContainer id c).1 where
  rewritten := setEffecterContainer_rewritten r id c
  records {k x y} hx hy := by
    rw [get?_setEffecterContainer, hx] at hy
    split_ifs at hy with hk
    · obtain ⟨⟨-, x', hx', hid⟩, -⟩ := effecter?_eq_some.mp hk
      obtain rfl := Option.some.inj (hx.symm.trans hx')
      obtain rfl := Option.some.inj hy
      exact Record.alike_contained hid c
    · obtain rfl := Option.some.inj hy
      exact .refl x

end Repository

namespace Exchange

open Repository

variable {r s : Repository} (settings : ExchangeSettings) (f : ContainerFixup)
  (fixups : List ContainerFixup)

theorem applyFixup_alike (r : Repository) : Alike r (applyFixup settings f r).1 := by
  rw [applyFixup_def]
  cases f.container? settings r with
  | none => exact .refl r
  | some container => exact alike_setEffecterContainer r f.effecterId container

/-- Under each handle the fix-up gives both repositories the same record, or changes neither. -/
theorem get?_applyFixup_of_alike (h : Alike r s) (k : RecordHandle) :
    (applyFixup settings f s).1.get? k = (applyFixup settings f r).1.get? k ∨
      ((applyFixup settings f r).1.get? k = r.get? k ∧
        (applyFixup settings f s).1.get? k = s.get? k) := by
  have hcontainer : f.container? settings s = f.container? settings r := by
    simp only [ContainerFixup.container?, h.rewritten.findContainer?]
  simp only [applyFixup_def, hcontainer]
  cases f.container? settings r with
  | none => exact .inr ⟨rfl, rfl⟩
  | some container =>
    simp only [get?_setEffecterContainer, h.effecter?]
    split_ifs
    · left
      rcases h.get? k with ⟨hx, hy⟩ | ⟨x, y, hx, hy, hxy⟩
      · rw [hx, hy]
      · rw [hx, hy, Option.map_some, Option.map_some, hxy.contained]
    · exact .inr ⟨rfl, rfl⟩

theorem applyFixups_alike (r : Repository) : Alike r (applyFixups settings fixups r).1 :=
  applyFixups_induction (fun s f _ hs => hs.trans (applyFixup_alike settings f s)) (.refl r)

/-- Under each handle the fix-ups give both repositories the same record, or change neither. -/
theorem get?_applyFixups_of_alike (h : Alike r s) (k : RecordHandle) :
    (applyFixups settings fixups s).1.get? k = (applyFixups settings fixups r).1.get? k ∨
      ((applyFixups settings fixups r).1.get? k = r.get? k ∧
        (applyFixups settings fixups s).1.get? k = s.get? k) := by
  induction fixups generalizing r s with
  | nil => exact .inr ⟨rfl, rfl⟩
  | cons f fixups ih =>
    rw [applyFixups_cons_fst, applyFixups_cons_fst]
    have happlied : Alike (applyFixup settings f r).1 (applyFixup settings f s).1 :=
      (applyFixup_alike settings f r).symm.trans (h.trans (applyFixup_alike settings f s))
    rcases ih happlied with hsame | ⟨hr, hs⟩
    · exact .inl hsame
    · rw [hr, hs]
      exact get?_applyFixup_of_alike settings f h k

/-- Applying the fix-ups once more changes nothing. -/
theorem applyFixups_idem (r : Repository) :
    (applyFixups settings fixups (applyFixups settings fixups r).1).1 =
    (applyFixups settings fixups r).1 := by
  have h := applyFixups_alike settings fixups r
  have hagain := applyFixups_alike settings fixups (applyFixups settings fixups r).1
  refine ext_get? hagain.rewritten.ownRange hagain.rewritten.hostRange fun k => ?_
  rcases get?_applyFixups_of_alike settings fixups h k with hsame | ⟨-, hs⟩
  · exact hsame
  · exact hs

/-- Fix-ups touch state effecter records of the controller's own only. -/
theorem get?_applyFixups {k : RecordHandle}
    (h : r.ownRange.contains k = false ∨ ∀ x, r.get? k = some x → x.type ≠ .stateEffecter) :
    (applyFixups settings fixups r).1.get? k = r.get? k := by
  induction fixups generalizing r with
  | nil => rfl
  | cons f fixups ih =>
    have hf : (applyFixup settings f r).1.get? k = r.get? k := by
      rw [applyFixup_def]
      cases f.container? settings r with
      | none => rfl
      | some container =>
        rw [get?_setEffecterContainer, if_neg]
        intro hk
        obtain ⟨⟨hin, x, hx, hid⟩, -⟩ := effecter?_eq_some.mp hk
        rcases h with hout | htype
        · simp [hin] at hout
        · exact htype x hx (Record.isEffecter_eq_true.mp hid).1
    have hown := (applyFixup_alike settings f r).rewritten.ownRange
    rw [applyFixups_cons_fst, ih (by rwa [hown, hf]), hf]

end Exchange
end DescriptorExchange
