import DescriptorExchange.Connection
import DescriptorExchange.Proofs.Entries
import Mathlib.Tactic.Common

/-!
Requests that wait on a connection. A request begins to wait when it is registered and ends when it
finishes; what the two sides send otherwise lets the same requests wait, and makes none of them pending
again.
-/
namespace DescriptorExchange.Connection

variable {c d e : Connection} {ticket : Ticket} {key : RequestKey} {f : Frame}

/-- The same requests wait, and nothing is pending that was not. -/
structure Quiet (c d : Connection) : Prop where
  waiting : d.waiting = c.waiting
  pending : ∀ {key : RequestKey} {ticket : Ticket}, d.pending[key]? = some ticket →
    c.pending[key]? = some ticket

/-- What happens on a connection besides its own requests. -/
inductive Traffic where
  /-- The other side sends bytes. -/
  | bytes (input : Bytes)
  /-- Frames that have been received are looked at. -/
  | look
  /-- The other side sends nothing more. -/
  | inputEnds
  /-- This side sends a message that asks for no answer. -/
  | send (f : Frame)
  /-- A request of the other side is taken. -/
  | serve
  /-- Requests of the other side are taken no more. -/
  | dismiss
  | shutdown

def carry (c : Connection) : Traffic → Connection
  | .bytes input => c.append input
  | .look => c.advance
  | .inputEnds => c.finishInput
  | .send f => (c.send f).1
  | .serve => (c.takeNext?.map Prod.fst).getD c
  | .dismiss => { c with serving := false, inbound := [] }
  | .shutdown => c.shutdown

namespace Quiet

theorem of_eq (hwaiting : d.waiting = c.waiting) (hpending : d.pending = c.pending) : c.Quiet d :=
  ⟨hwaiting, fun hkey => hpending ▸ hkey⟩

theorem trans (h : c.Quiet d) (h' : d.Quiet e) : c.Quiet e :=
  ⟨h'.waiting.trans h.waiting, fun hkey => h.pending (h'.pending hkey)⟩

theorem close (c : Connection) : c.Quiet c.close where
  waiting := rfl
  pending h := by simp [Connection.close] at h

theorem send (c : Connection) (f : Frame) : c.Quiet (c.send f).1 := by
  unfold Connection.send
  split_ifs
  · exact of_eq rfl rfl
  · cases f.encode with
    | ok bytes => exact of_eq rfl rfl
    | error cause => exact close c

theorem arrive (c : Connection) (f : Frame) : c.Quiet (c.arrive f) := by
  unfold Connection.arrive
  cases c.pending[f.key]? with
  | none => exact of_eq rfl rfl
  | some ticket =>
    refine ⟨rfl, fun {key ticket} hkey => ?_⟩
    replace hkey : (c.pending.erase f.key)[key]? = some ticket := hkey
    rw [Entries.getElem?_erase] at hkey
    split_ifs at hkey
    exact hkey

theorem lookAt (frames : List Frame) (c : Connection) : c.Quiet (lookAt frames c) := by
  induction frames generalizing c with
  | nil =>
    unfold Connection.lookAt
    split_ifs
    · exact close c
    · exact of_eq rfl rfl
  | cons f rest ih =>
    unfold Connection.lookAt
    split_ifs
    · exact ih c
    · have hqueued : c.Quiet { c with inbound := c.inbound ++ [f] } := of_eq rfl rfl
      exact hqueued.trans (ih _)
    · exact of_eq rfl rfl
    · exact (arrive c f).trans (ih (c.arrive f))

theorem advance (c : Connection) : c.Quiet c.advance := by
  unfold Connection.advance
  split_ifs
  · exact of_eq rfl rfl
  · exact lookAt c.backlog c

theorem append (c : Connection) (input : Bytes) : c.Quiet (c.append input) := by
  unfold Connection.append
  split_ifs
  · exact of_eq rfl rfl
  · rcases Frame.collect (c.buffer ++ input) with ⟨frames, left⟩
    cases left with
    | ok buffer => exact of_eq rfl rfl
    | error cause => exact of_eq rfl rfl

theorem serve (c : Connection) : c.Quiet ((c.takeNext?.map Prod.fst).getD c) := by
  unfold takeNext?
  cases c.inbound with
  | nil => exact of_eq rfl rfl
  | cons f rest =>
    have htaken : c.Quiet { c with inbound := rest } := of_eq rfl rfl
    exact htaken.trans (advance _)

theorem carry (c : Connection) (t : Traffic) : c.Quiet (c.carry t) := by
  cases t with
  | bytes input => exact append c input
  | look => exact advance c
  | inputEnds => exact of_eq rfl rfl
  | send f => exact send c f
  | serve => exact serve c
  | dismiss => exact of_eq rfl rfl
  | shutdown =>
    unfold Connection.carry Connection.shutdown
    extract_lets held
    have hheld : c.Quiet { c with inbound := c.inbound ++ held } := of_eq rfl rfl
    exact hheld.trans (close _)

end Quiet

/-- A request is refused as busy while its key is pending. One that is not refused waits, and its key is
all that becomes pending. -/
theorem request_cases (c : Connection) (ticket : Ticket) (f : Frame) :
    (f.key ∈ c.pending ∧ c.request ticket f = (c, .error (.busy f.eid f.key.iid))) ∨
    (f.key ∉ c.pending ∧ c.closed ∧ c.request ticket f = (c, .error .closed)) ∨
    (f.key ∉ c.pending ∧ ∃ d bytes, c.request ticket f = (d, .ok bytes) ∧
      d.waiting = c.waiting.insert ticket f.key ∧
      ∀ key other, d.pending[key]? = some other →
        c.pending[key]? = some other ∨ (key = f.key ∧ other = ticket)) := by
  unfold request
  split_ifs with hbusy hclosed
  · exact .inl ⟨hbusy, rfl⟩
  · exact .inr (.inl ⟨hbusy, hclosed, rfl⟩)
  · refine .inr (.inr ⟨hbusy, ?_⟩)
    set registered : Connection := { c with
      waiting := c.waiting.insert ticket f.key
      pending := c.pending.insert f.key ticket } with hregistered
    have hquiet := Quiet.send registered f
    have hwritten : ∃ bytes, (registered.send f).2 = .ok bytes := by
      unfold send
      rw [if_neg (show ¬ registered.closed from hclosed)]
      cases f.encode with
      | ok bytes => exact ⟨bytes, rfl⟩
      | error cause => exact ⟨[], rfl⟩
    obtain ⟨bytes, hbytes⟩ := hwritten
    refine ⟨_, bytes, Prod.ext rfl hbytes, hquiet.waiting, fun key other hkey => ?_⟩
    have hold : (c.pending.insert f.key ticket)[key]? = some other := hquiet.pending hkey
    rw [Entries.getElem?_insert] at hold
    split_ifs at hold with hsame
    · exact .inr ⟨hsame, (Option.some.inj hold).symm⟩
    · exact .inl hold

/-- A request that finishes waits no longer, and its key is free. -/
theorem finish_of_waiting (h : c.waiting[ticket]? = some key) :
    (c.finish ticket).waiting = c.waiting.erase ticket ∧
      (c.finish ticket).pending = c.pending.erase key := by
  unfold finish
  rw [h]
  exact ⟨rfl, rfl⟩

/-- A request never ends as busy once it waits. -/
theorem outcome_error {cause : TransportError} (h : c.outcome? ticket = some (.error cause)) :
    cause = .closed := by
  unfold outcome? at h
  split at h
  · simp at h
  · split at h
    · simp at h
    · split_ifs at h
      simpa using h.symm

end DescriptorExchange.Connection
