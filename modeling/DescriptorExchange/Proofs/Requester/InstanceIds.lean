import DescriptorExchange.InstanceIds
import Mathlib.Data.Finset.Card
import Mathlib.Tactic.Common

/-!
Instance ids of one terminus. The mask of a pool stands for the set of ids whose bits are set, and the pool
does to this set what its operations say: an id that is handed out was free, and it is held until it is given
back; the ids of other termini are not touched.
-/
namespace DescriptorExchange

variable {tid other : TerminusId} {iid jid : InstanceId}

namespace InstanceId

theorem toNat_inj : iid.value.toNat = jid.value.toNat ↔ iid = jid := by
  obtain ⟨value⟩ := iid
  obtain ⟨value'⟩ := jid
  rw [UInt8.toNat_inj, InstanceId.mk.injEq]

theorem isValid_iff : iid.isValid ↔ iid.value.toNat < count := decide_eq_true_iff

/-- All ids there are. -/
def all : Finset InstanceId := (Finset.range count).image fun i => ⟨UInt8.ofNat i⟩

theorem mem_all : iid ∈ all ↔ iid.isValid := by
  rw [all, Finset.mem_image, isValid_iff]
  constructor
  · rintro ⟨i, hi, rfl⟩
    have hlt := Finset.mem_range.mp hi
    have hvalue : (UInt8.ofNat i).toNat = i := UInt8.toNat_ofNat_of_lt (hlt.trans (by decide))
    exact hvalue.trans_lt hlt
  · exact fun hlt => ⟨iid.value.toNat, Finset.mem_range.mpr hlt, by simp⟩

theorem card_all : all.card = count := by decide

end InstanceId

namespace InstancePool

variable {p q : InstancePool} {mask : UInt32}

/-- The bit of an id is set. -/
def Holds (p : InstancePool) (iid : InstanceId) : Prop :=
  p.inUse.toBitVec.getLsbD iid.value.toNat = true

theorem Holds.isValid (h : p.Holds iid) : iid.isValid :=
  InstanceId.isValid_iff.mpr (BitVec.lt_of_getLsbD h)

theorem getLsbD_bit (hiid : iid.isValid) (i : Nat) :
    (bit iid).toBitVec.getLsbD i = decide (i = iid.value.toNat) := by
  have hlt : iid.value.toNat < 32 := InstanceId.isValid_iff.mp hiid
  rw [bit, UInt32.toBitVec_shiftLeft]
  simp
  grind

theorem and_bit_eq_zero_iff (hiid : iid.isValid) :
    mask &&& bit iid = 0 ↔ mask.toBitVec.getLsbD iid.value.toNat = false := by
  rw [← UInt32.toBitVec_inj, UInt32.toBitVec_and]
  constructor
  · intro hzero
    have hbit := congrArg (BitVec.getLsbD · iid.value.toNat) hzero
    simpa [BitVec.getLsbD_and, getLsbD_bit hiid] using hbit
  · intro hclear
    refine BitVec.eq_of_getLsbD_eq fun i _ => ?_
    rw [BitVec.getLsbD_and, getLsbD_bit hiid]
    by_cases hi : i = iid.value.toNat
    · simp [hi, hclear]
    · simp [hi]

/-- An id is free for the mask just if its bit is not set. -/
theorem not_holds_iff (hiid : iid.isValid) : ¬ p.Holds iid ↔ p.inUse &&& bit iid = 0 := by
  rw [and_bit_eq_zero_iff hiid, Holds, Bool.not_eq_true]

theorem holds_set_iff (hiid : iid.isValid) (next : UInt8) :
    Holds ⟨p.inUse ||| bit iid, next⟩ jid ↔ p.Holds jid ∨ jid = iid := by
  simp only [Holds, UInt32.toBitVec_or, BitVec.getLsbD_or, getLsbD_bit hiid, Bool.or_eq_true,
    decide_eq_true_iff, InstanceId.toNat_inj]

theorem holds_clear_iff (hiid : iid.isValid) :
    Holds { p with inUse := p.inUse &&& ~~~ bit iid } jid ↔ p.Holds jid ∧ jid ≠ iid := by
  simp only [Holds, UInt32.toBitVec_and, UInt32.toBitVec_not, BitVec.getLsbD_and, BitVec.getLsbD_not,
    getLsbD_bit hiid, Bool.and_eq_true, decide_eq_true_iff, Bool.not_eq_true', decide_eq_false_iff_not,
    InstanceId.toNat_inj]
  refine ⟨fun ⟨hheld, _, hne⟩ => ⟨hheld, hne⟩, fun ⟨hheld, hne⟩ => ⟨hheld, ?_, hne⟩⟩
  exact BitVec.lt_of_getLsbD hheld

theorem toNat_candidate (p : InstancePool) (step : Nat) :
    (p.candidate step).value.toNat = (p.next.toNat + step) % InstanceId.count := by
  simp only [candidate, InstanceId.count, UInt8.toNat_mod, UInt8.toNat_add, UInt8.toNat_ofNat',
    Nat.reducePow, Nat.reduceMod]
  omega

theorem isValid_candidate (p : InstancePool) (step : Nat) : (p.candidate step).isValid := by
  rw [InstanceId.isValid_iff, toNat_candidate]
  exact Nat.mod_lt _ (by decide)

/-- Every id is a candidate. -/
theorem exists_candidate (p : InstancePool) (hiid : iid.isValid) :
    ∃ step < InstanceId.count, p.candidate step = iid := by
  have hlt := InstanceId.isValid_iff.mp hiid
  unfold InstanceId.count at hlt
  refine ⟨(iid.value.toNat + 32 - p.next.toNat % 32) % 32, Nat.mod_lt _ (by decide), ?_⟩
  rw [← InstanceId.toNat_inj, toNat_candidate]
  unfold InstanceId.count
  omega

/-- The id that is handed out is the first free one from the start on, and the search starts behind it from
then on. -/
theorem allocate_eq_some (h : p.allocate = some (q, iid)) :
    iid.isValid ∧ ¬ p.Holds iid ∧ (∀ jid, q.Holds jid ↔ p.Holds jid ∨ jid = iid) ∧
      q.next.toNat = (iid.value.toNat + 1) % InstanceId.count ∧
      ∃ step < InstanceId.count, iid = p.candidate step ∧ ∀ j < step, p.Holds (p.candidate j) := by
  obtain ⟨found, hfind, hq⟩ := Option.map_eq_some_iff.mp h
  obtain ⟨rfl, rfl⟩ := Prod.mk.inj hq
  obtain ⟨hfree, step, hstep, hat, hbefore⟩ := List.find?_eq_some_iff_getElem.mp hfind
  have hlt : step < InstanceId.count := by simpa using hstep
  have hfound : found = p.candidate step := by simpa using hat.symm
  have hvalid : found.isValid := hfound ▸ p.isValid_candidate step
  refine ⟨hvalid, (not_holds_iff hvalid).mpr (of_decide_eq_true hfree),
    fun jid => holds_set_iff hvalid _, ?_, step, hlt, hfound, fun j hj => ?_⟩
  · simp only [InstanceId.count, UInt8.toNat_mod, UInt8.toNat_add, UInt8.toNat_ofNat', UInt8.reduceToNat,
      Nat.reducePow, Nat.reduceMod]
    omega
  · by_contra hnot
    have hzero := (not_holds_iff (p.isValid_candidate j)).mp hnot
    simpa [hzero] using hbefore j hj

/-- No id is handed out just if all are in use. -/
theorem allocate_eq_none_iff : p.allocate = none ↔ ∀ iid : InstanceId, iid.isValid → p.Holds iid := by
  constructor
  · intro hnone iid hiid
    obtain ⟨step, hstep, rfl⟩ := p.exists_candidate hiid
    by_contra hfree
    have hcandidate : p.candidate step ∈ (List.range InstanceId.count).map p.candidate :=
      List.mem_map_of_mem (List.mem_range.mpr hstep)
    have hfind := List.find?_eq_none.mp (Option.map_eq_none_iff.mp hnone) _ hcandidate
    simp [(not_holds_iff hiid).mp hfree] at hfind
  · intro hall
    cases hallocate : p.allocate with
    | none => rfl
    | some taken =>
      obtain ⟨hvalid, hfree, -⟩ := allocate_eq_some hallocate
      exact absurd (hall _ hvalid) hfree

/-- An id that is in use can be given back, and is the only one that becomes free by it. -/
theorem release_of_holds (h : p.Holds iid) : ∃ q, p.release iid = some q ∧ q.next = p.next ∧
    ∀ jid, q.Holds jid ↔ p.Holds jid ∧ jid ≠ iid := by
  have hset : ¬ (¬ iid.isValid ∨ p.inUse &&& bit iid = 0) := by
    rw [← not_holds_iff h.isValid]
    simp [h, h.isValid]
  exact ⟨_, if_neg hset, rfl, fun jid => holds_clear_iff h.isValid⟩

theorem release_of_not_holds (h : ¬ p.Holds iid) : p.release iid = none := by
  apply if_pos
  by_cases hvalid : iid.isValid
  · exact .inr ((not_holds_iff hvalid).mp h)
  · exact .inl hvalid

theorem cpopNatRec_eq (mask : BitVec 32) (n : Nat) :
    mask.cpopNatRec n 0 = ((Finset.range n).filter fun i => mask.getLsbD i = true).card := by
  induction n with
  | zero => rfl
  | succ n ih =>
    rw [BitVec.cpopNatRec_succ, BitVec.cpopNatRec_add, ih, Finset.range_add_one, Finset.filter_insert]
    by_cases hbit : mask.getLsbD n = true
    · rw [if_pos hbit, Finset.card_insert_of_notMem (by simp), hbit]
      rfl
    · rw [if_neg hbit, Bool.eq_false_of_not_eq_true hbit]
      rfl

/-- As many ids are in use as are held. -/
theorem count_eq_card {held : Finset InstanceId} (hheld : ∀ {iid}, iid ∈ held ↔ p.Holds iid) :
    p.count = held.card := by
  have himage : held.image (·.value.toNat) =
      (Finset.range 32).filter fun i => p.inUse.toBitVec.getLsbD i = true := by
    ext i
    rw [Finset.mem_image, Finset.mem_filter, Finset.mem_range]
    constructor
    · rintro ⟨iid, hiid, rfl⟩
      have hset := hheld.mp hiid
      exact ⟨InstanceId.isValid_iff.mp hset.isValid, hset⟩
    · rintro ⟨hi, hset⟩
      have hvalue : (UInt8.ofNat i).toNat = i := UInt8.toNat_ofNat_of_lt (hi.trans (by decide))
      refine ⟨⟨UInt8.ofNat i⟩, hheld.mpr ?_, hvalue⟩
      rwa [Holds, hvalue]
  have hinj : Function.Injective fun iid : InstanceId => iid.value.toNat :=
    fun a b => InstanceId.toNat_inj.mp
  rw [count, BitVec.toNat_cpop, cpopNatRec_eq, ← himage, Finset.card_image_of_injective held hinj]

/-- No id is handed out just if as many are in use as there are. -/
theorem allocate_eq_none_iff_count : p.allocate = none ↔ p.count = InstanceId.count := by
  classical
  let held := InstanceId.all.filter p.Holds
  have hheld {iid : InstanceId} : iid ∈ held ↔ p.Holds iid := by
    rw [Finset.mem_filter, InstanceId.mem_all]
    exact and_iff_right_of_imp Holds.isValid
  rw [allocate_eq_none_iff, count_eq_card hheld]
  constructor
  · intro hall
    have heq : held = InstanceId.all :=
      Finset.filter_true_of_mem fun iid hiid => hall iid (InstanceId.mem_all.mp hiid)
    rw [heq, InstanceId.card_all]
  · intro hcard iid hvalid
    have heq : held = InstanceId.all :=
      Finset.eq_of_subset_of_card_le (Finset.filter_subset ..) (by rw [hcard, InstanceId.card_all])
    exact hheld.mp (heq ▸ InstanceId.mem_all.mpr hvalid)

end InstancePool

namespace InstanceIds

variable {ids later : InstanceIds}

/-- An instance id of a terminus is in use. -/
def Held (ids : InstanceIds) (tid : TerminusId) (iid : InstanceId) : Prop := (ids.pool tid).Holds iid

theorem pool_setPool (ids : InstanceIds) (tid other : TerminusId) (p : InstancePool) :
    (ids.setPool tid p).pool other = if other = tid then p else ids.pool other := by
  unfold setPool pool
  rw [Std.ExtTreeMap.getElem?_insert]
  split_ifs with hcompare hsame hsame
  · rfl
  · exact absurd (congrArg TerminusId.mk (Std.LawfulEqCmp.eq_of_compare hcompare)).symm hsame
  · exact absurd (hsame ▸ Std.ReflCmp.compare_self) hcompare
  · rfl

/-- An id that is handed out was free, and what was held before is held still. -/
theorem allocate_eq_ok (h : ids.allocate tid = .ok (later, iid)) :
    iid.value.toNat < InstanceId.count ∧ ¬ ids.Held tid iid ∧
      ∀ other jid, later.Held other jid ↔ ids.Held other jid ∨ (other = tid ∧ jid = iid) := by
  unfold allocate at h
  split at h
  next p found hallocate =>
    obtain ⟨rfl, rfl⟩ := Prod.mk.inj (Except.ok.inj h)
    obtain ⟨hvalid, hfree, hholds, -⟩ := InstancePool.allocate_eq_some hallocate
    refine ⟨InstanceId.isValid_iff.mp hvalid, hfree, fun other jid => ?_⟩
    unfold Held
    rw [pool_setPool]
    split_ifs with hsame
    · rw [hholds, hsame]
      simp
    · simp [hsame]
  next => simp at h

/-- An id that is held can be given back, and nothing else becomes free by that. -/
theorem release_of_held (h : ids.Held tid iid) : ∃ later, ids.release tid iid = .ok later ∧
    ∀ other jid, later.Held other jid ↔ ids.Held other jid ∧ (other ≠ tid ∨ jid ≠ iid) := by
  obtain ⟨q, hrelease, -, hholds⟩ := InstancePool.release_of_holds h
  refine ⟨ids.setPool tid q, by rw [release, hrelease], fun other jid => ?_⟩
  unfold Held
  rw [pool_setPool]
  split_ifs with hsame
  · subst hsame
    simp [hholds]
  · simp [hsame]

end InstanceIds
end DescriptorExchange
