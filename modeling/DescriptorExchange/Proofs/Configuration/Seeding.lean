import DescriptorExchange.Configuration
import DescriptorExchange.Proofs.Exchange.Grafting

/-!
The controller's own topology as a configuration describes it. However often an entity is named, the
tree and the association records agree about it.
-/
namespace DescriptorExchange

open Repository Containment

variable {r s : Repository} {t t' : Containment} {parent child : Entity} {kind : UInt8}

namespace Planted

theorem empty {own host : HandleRange} (h : own.Apart host) : Planted (.empty own host) .empty where
  ranges := h
  tidy k record hget := by simp [Repository.get?, Repository.empty] at hget
  own hget := by simp [Repository.get?, Repository.empty] at hget
  forest := ⟨fun hn => by simp [node?, Containment.empty] at hn,
    fun hn => by simp [node?, Containment.empty] at hn,
    fun hn => by simp [node?, Containment.empty] at hn⟩
  ownNodes hn := by simp [node?, Containment.empty] at hn
  mirror p c := by
    constructor
    · rintro ⟨⟨k, header, a⟩, hmem, -⟩
      obtain ⟨record, hget, -⟩ := Repository.mem_associations.mp hmem
      simp [Repository.get?, Repository.empty] at hget
    · rintro ⟨id, n, q, m, hn, -⟩
      simp [node?, Containment.empty] at hn

theorem addRoot (h : Planted r t) (e : Entity) : Planted r (t.addRoot e .own).1 := by
  unfold Containment.addRoot
  split
  · exact h
  · obtain ⟨hforest, hcontains⟩ := push_root_forest h.forest e .own
    refine ⟨h.ranges, h.tidy, h.own, hforest, fun {id n} hn => ?_,
      fun p c => (h.mirror p c).trans (hcontains p c).symm⟩
    rw [node?_push] at hn
    split_ifs at hn
    · obtain rfl := Option.some.inj hn
      rfl
    · exact h.ownNodes hn

theorem attach {id : NodeId} {above : Node} {placement : Placement} {k : RecordHandle}
    {changed : Bool}
    (h : Planted r t) (habove : t.node? id = some above)
    (hattach : t.attach id child .own = .ok (t', placement))
    (hassociate : r.associate above.entity kind child = .ok (s, k, changed)) : Planted s t' := by
  obtain ⟨hrs, -⟩ := associate_relisted h.tidy h.ranges.ownProper hassociate
  refine ⟨?_, hrs.tidy, fun {j record} hget => ?_, attach_forest h.forest hattach,
    fun {i n} hn => ?_, fun p c => ?_⟩
  · rw [hrs.ownRange, hrs.hostRange]
    exact h.ranges
  · rw [hrs.ownRange]
    by_contra hout
    exact hout (h.own ((hrs.others j record (.inl (by simpa using hout))).mp hget))
  · obtain ⟨above', ha, ⟨_, _, -, -, -, rfl, -⟩ | ⟨-, rfl, -⟩⟩ := attach_eq_ok hattach
    · exact h.ownNodes hn
    · rcases node?_of_node?_under ha hn with ⟨-, rfl⟩ | ⟨m, hm, -, horigin, -⟩
      · rfl
      · exact horigin.trans (h.ownNodes hm)
  · rw [lists_associate h.tidy h.ranges.ownProper hassociate,
      contains_attach h.forest hattach habove, h.mirror]

end Planted

/-- Nothing but association records. -/
def Repository.OnlyLists (r : Repository) : Prop :=
  ∀ {k record}, r.get? k = some record → record.type = .entityAssociation

theorem plant_planted {entries : List TopologyEntry} (h : Planted r t) (hr : r.OnlyLists)
    (hplant : Configuration.plant entries (r, t) = .ok (s, t')) :
    Planted s t' ∧ s.OnlyLists ∧ s.ownRange = r.ownRange ∧ s.hostRange = r.hostRange := by
  induction entries generalizing r t with
  | nil =>
    obtain ⟨rfl, rfl⟩ := Prod.mk.inj (Except.ok.inj hplant)
    exact ⟨h, hr, rfl, rfl⟩
  | cons entry entries ih =>
    unfold Configuration.plant at hplant
    split at hplant
    next => exact ih (h.addRoot entry.entity) hr hplant
    next parent _ =>
      split at hplant
      next => simp at hplant
      next id hfind =>
        obtain ⟨above, habove, rfl⟩ := findExact?_eq_some hfind
        split at hplant
        next => simp at hplant
        next tree placement hattach =>
          split at hplant
          next => simp at hplant
          next mid k hassociate =>
            obtain ⟨hrs, -⟩ := associate_relisted h.tidy h.ranges.ownProper hassociate
            have hmid : mid.OnlyLists := fun {j record} hget => by
              by_contra htype
              exact htype (hr ((hrs.others j record (.inr htype)).mp hget))
            obtain ⟨hs, hlists, hown, hhost⟩ := ih (h.attach habove hattach hassociate) hmid hplant
            exact ⟨hs, hlists, hown.trans hrs.ownRange, hhost.trans hrs.hostRange⟩

/-- A configuration whose ranges are apart describes a topology that its records mirror. -/
theorem seed_planted {c : Configuration} (hranges : c.settings.ownRange.Apart c.settings.hostRange)
    (h : c.seed = .ok (r, t)) : Planted r t ∧ r.OnlyLists ∧ r.ownRange = c.settings.ownRange ∧
      r.hostRange = c.settings.hostRange :=
  plant_planted (.empty hranges) (fun hget => by simp [Repository.get?, Repository.empty] at hget) h

end DescriptorExchange
