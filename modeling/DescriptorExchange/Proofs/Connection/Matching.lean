import DescriptorExchange.Proofs.Connection.Waiting
import Mathlib.Data.List.Induction

/-!
How requests and responses find each other on a connection. Requests register under their endpoint and
instance id, responses arrive, requests finish, and the connection closes, in any order; whatever else a
program does with a connection comes down to that.
-/
namespace DescriptorExchange.Connection

variable {c d : Connection} {ticket : Ticket} {key : RequestKey} {f : Frame}

/-- The part of a request that comes before its message is written. -/
def register (c : Connection) (ticket : Ticket) (key : RequestKey) : Connection :=
  if key ∈ c.pending ∨ c.closed then c
  else { c with waiting := c.waiting.insert ticket key, pending := c.pending.insert key ticket }

/-- A request registers, and closes the connection if its message cannot be written. -/
theorem request_eq (c : Connection) (ticket : Ticket) (f : Frame) :
    (c.request ticket f).1 = c.register ticket f.key ∨
    (c.request ticket f).1 = (c.register ticket f.key).close := by
  unfold request register
  split_ifs with hbusy hrefused hclosed hrefused hrefused
  · exact .inl rfl
  · exact absurd (.inl hbusy) hrefused
  · exact .inl rfl
  · exact absurd (.inr hclosed) hrefused
  · exact absurd hrefused (not_or.mpr ⟨hbusy, hclosed⟩)
  · unfold send
    rw [if_neg (show ¬ (c.closed = true) from hclosed)]
    cases f.encode with
    | ok bytes => exact .inl rfl
    | error cause => exact .inr rfl

/-- What happens to requests. -/
inductive Turn where
  /-- A request registers, under the next ticket. -/
  | register (key : RequestKey)
  /-- A response of the other side arrives. -/
  | arrive (f : Frame)
  /-- A request returns or is given up. -/
  | finish (ticket : Ticket)
  | close

/-- A connection and the ticket of its next request. -/
structure Matching where
  connection : Connection
  issued : Ticket

namespace Matching

variable {s s' : Matching} {turn : Turn} {turns : List Turn} {other : Ticket} {message : Message}

def start : Matching := { connection := fresh, issued := 0 }

def after (s : Matching) : Turn → Matching
  | .register key => { connection := s.connection.register s.issued key, issued := s.issued + 1 }
  | .arrive f => { s with connection := s.connection.arrive f }
  | .finish ticket => { s with connection := s.connection.finish ticket }
  | .close => { s with connection := s.connection.close }

def afterAll (s : Matching) (turns : List Turn) : Matching := turns.foldl after s

theorem afterAll_append (s : Matching) (turns later : List Turn) :
    s.afterAll (turns ++ later) = (s.afterAll turns).afterAll later :=
  List.foldl_append

/-- What a turn changes. -/
inductive Changes (s : Matching) : Turn → Matching → Prop
  | refused {key : RequestKey} : Changes s (.register key) { s with issued := s.issued + 1 }
  | registered {key : RequestKey} (hfree : s.connection.pending[key]? = none)
      (hopen : s.connection.closed = false) :
      Changes s (.register key)
        { connection := { s.connection with
            waiting := s.connection.waiting.insert s.issued key
            pending := s.connection.pending.insert key s.issued }
          issued := s.issued + 1 }
  | unsolicited {f : Frame} (hnone : s.connection.pending[f.key]? = none) : Changes s (.arrive f) s
  | answered {f : Frame} {ticket : Ticket} (hentry : s.connection.pending[f.key]? = some ticket) :
      Changes s (.arrive f)
        { s with connection := { s.connection with
            pending := s.connection.pending.erase f.key
            answers := s.connection.answers.insert ticket f.message } }
  | absent {ticket : Ticket} (hnone : s.connection.waiting[ticket]? = none) :
      Changes s (.finish ticket) s
  | finished {ticket : Ticket} {key : RequestKey} (hwaits : s.connection.waiting[ticket]? = some key) :
      Changes s (.finish ticket)
        { s with connection := { s.connection with
            waiting := s.connection.waiting.erase ticket
            pending := s.connection.pending.erase key
            answers := s.connection.answers.erase ticket } }
  | closed : Changes s .close { s with connection := s.connection.close }

/-- Every turn changes the requests in one of these ways. -/
theorem after_changes (s : Matching) (turn : Turn) : s.Changes turn (s.after turn) := by
  cases turn with
  | register key =>
    simp only [after, Connection.register]
    split_ifs with hrefused
    · exact .refused
    · obtain ⟨hfree, hopen⟩ := not_or.mp hrefused
      exact .registered (Std.ExtTreeMap.getElem?_eq_none hfree) (Bool.eq_false_iff.mpr hopen)
  | arrive f =>
    simp only [after, Connection.arrive]
    split
    next hnone => exact .unsolicited hnone
    next ticket hentry => exact .answered hentry
  | finish ticket =>
    simp only [after, Connection.finish]
    split
    next hnone => exact .absent hnone
    next key hwaits => exact .finished hwaits
  | close => exact .closed

/-- Every entry is that of a request that waits for a response under its key and has none yet. Of the
requests that wait under one key the one with the entry is the last. -/
structure Sound (s : Matching) : Prop where
  numbered : ∀ {ticket : Ticket} {key : RequestKey},
    s.connection.waiting[ticket]? = some key → ticket < s.issued
  waits : ∀ {key : RequestKey} {ticket : Ticket},
    s.connection.pending[key]? = some ticket → s.connection.waiting[ticket]? = some key
  latest : ∀ {key : RequestKey} {ticket other : Ticket}, s.connection.pending[key]? = some ticket →
    s.connection.waiting[other]? = some key → other ≤ ticket
  unanswered : ∀ {key : RequestKey} {ticket : Ticket},
    s.connection.pending[key]? = some ticket → s.connection.answers[ticket]? = none
  answered : ∀ {ticket : Ticket} {message : Message},
    s.connection.answers[ticket]? = some message → ticket < s.issued

namespace Sound

theorem start : start.Sound where
  numbered h := by simp [Matching.start, fresh] at h
  waits h := by simp [Matching.start, fresh] at h
  latest h := by simp [Matching.start, fresh] at h
  unanswered h := by simp [Matching.start, fresh] at h
  answered h := by simp [Matching.start, fresh] at h

theorem registered (h : s.Sound) (key : RequestKey) :
    Sound
      { connection := { s.connection with
          waiting := s.connection.waiting.insert s.issued key
          pending := s.connection.pending.insert key s.issued }
        issued := s.issued + 1 } where
  numbered := by
    intro ticket key' hwaits
    replace hwaits := (Entries.getElem?_insert ..).symm.trans hwaits
    split_ifs at hwaits with hnew
    · exact hnew ▸ Nat.lt_succ_self _
    · exact Nat.lt_succ_of_lt (h.numbered hwaits)
  waits := by
    intro key' ticket hentry
    replace hentry := (Entries.getElem?_insert ..).symm.trans hentry
    show (s.connection.waiting.insert s.issued key)[ticket]? = some key'
    split_ifs at hentry with hsame
    · obtain rfl := Option.some.inj hentry
      exact hsame ▸ Std.ExtTreeMap.getElem?_insert_self
    · have hold := h.waits hentry
      exact (Entries.getElem?_insert_of_ne (Nat.ne_of_lt (h.numbered hold))).trans hold
  latest := by
    intro key' ticket other hentry hother
    replace hentry := (Entries.getElem?_insert ..).symm.trans hentry
    replace hother := (Entries.getElem?_insert ..).symm.trans hother
    split_ifs at hentry hother with hsame hnew hnew
    · exact Nat.le_of_eq (hnew.trans (Option.some.inj hentry))
    · exact Option.some.inj hentry ▸ Nat.le_of_lt (h.numbered hother)
    · exact absurd (Option.some.inj hother).symm hsame
    · exact h.latest hentry hother
  unanswered := by
    intro key' ticket hentry
    replace hentry := (Entries.getElem?_insert ..).symm.trans hentry
    split_ifs at hentry with hsame
    · obtain rfl := Option.some.inj hentry
      apply Option.eq_none_iff_forall_ne_some.mpr
      intro message hmessage
      exact Nat.lt_irrefl _ (h.answered hmessage)
    · exact h.unanswered hentry
  answered hmessage := Nat.lt_succ_of_lt (h.answered hmessage)

/-- An entry under another key is that of another request. -/
theorem ne_of_entry {other : RequestKey} {rival : Ticket} (h : s.Sound) (hne : other ≠ key)
    (hentry : s.connection.pending[other]? = some rival)
    (hwaits : s.connection.waiting[ticket]? = some key) : rival ≠ ticket := by
  rintro rfl
  exact hne (Option.some.inj ((h.waits hentry).symm.trans hwaits))

theorem handed (h : s.Sound) (hentry : s.connection.pending[f.key]? = some ticket) :
    Sound { s with connection := { s.connection with
      pending := s.connection.pending.erase f.key
      answers := s.connection.answers.insert ticket f.message } } := by
  have hkept {key : RequestKey} {other : Ticket}
      (h' : (s.connection.pending.erase f.key)[key]? = some other) :
      key ≠ f.key ∧ s.connection.pending[key]? = some other := by
    rw [Entries.getElem?_erase] at h'
    split_ifs at h' with hsame
    exact ⟨hsame, h'⟩
  constructor
  · exact h.numbered
  · exact fun h' => h.waits (hkept h').2
  · exact fun h' => h.latest (hkept h').2
  · intro key other h'
    obtain ⟨hne, hold⟩ := hkept h'
    have hother : other ≠ ticket := h.ne_of_entry hne hold (h.waits hentry)
    exact (Entries.getElem?_insert_of_ne hother).trans (h.unanswered hold)
  · intro other message hmessage
    replace hmessage := (Entries.getElem?_insert ..).symm.trans hmessage
    split_ifs at hmessage with hsame
    · subst hsame
      exact h.numbered (h.waits hentry)
    · exact h.answered hmessage

theorem finished (h : s.Sound) (hwaits : s.connection.waiting[ticket]? = some key) :
    Sound { s with connection := { s.connection with
      waiting := s.connection.waiting.erase ticket
      pending := s.connection.pending.erase key
      answers := s.connection.answers.erase ticket } } := by
  have hkept {key' : RequestKey} {other : Ticket}
      (h' : (s.connection.pending.erase key)[key']? = some other) :
      s.connection.pending[key']? = some other ∧ other ≠ ticket := by
    rw [Entries.getElem?_erase] at h'
    split_ifs at h' with hsame
    exact ⟨h', h.ne_of_entry hsame h' hwaits⟩
  have hstill {other : Ticket} {key' : RequestKey}
      (h' : (s.connection.waiting.erase ticket)[other]? = some key') :
      s.connection.waiting[other]? = some key' := by
    rw [Entries.getElem?_erase] at h'
    split_ifs at h'
    exact h'
  constructor
  · exact fun h' => h.numbered (hstill h')
  · intro key' other h'
    obtain ⟨hold, hne⟩ := hkept h'
    exact (Entries.getElem?_erase_of_ne hne).trans (h.waits hold)
  · exact fun h' hother => h.latest (hkept h').1 (hstill hother)
  · intro key' other h'
    obtain ⟨hold, hne⟩ := hkept h'
    exact (Entries.getElem?_erase_of_ne hne).trans (h.unanswered hold)
  · intro other message hmessage
    replace hmessage := (Entries.getElem?_erase ..).symm.trans hmessage
    split_ifs at hmessage
    exact h.answered hmessage

theorem closed (h : s.Sound) : Sound { s with connection := s.connection.close } where
  numbered := h.numbered
  waits h' := by simp [Connection.close] at h'
  latest h' := by simp [Connection.close] at h'
  unanswered h' := by simp [Connection.close] at h'
  answered := h.answered

theorem changes (h : s.Sound) (hchanges : s.Changes turn s') : s'.Sound := by
  cases hchanges with
  | refused =>
    exact ⟨fun h' => Nat.lt_succ_of_lt (h.numbered h'), h.waits, h.latest, h.unanswered,
      fun h' => Nat.lt_succ_of_lt (h.answered h')⟩
  | registered => exact h.registered _
  | unsolicited => exact h
  | answered hentry => exact h.handed hentry
  | absent => exact h
  | finished hwaits => exact h.finished hwaits
  | closed => exact h.closed

end Sound

/-- The requests are sound after any turns. -/
theorem sound_afterAll (turns : List Turn) : (start.afterAll turns).Sound := by
  induction turns using List.reverseRecOn with
  | nil => exact .start
  | append_singleton turns turn ih =>
    rw [afterAll_append]
    exact ih.changes (after_changes _ turn)

/-- What a program does with a connection. -/
inductive Operation where
  | request (f : Frame)
  | traffic (t : Traffic)
  | finish (ticket : Ticket)

def operate (s : Matching) : Operation → Matching
  | .request f => { connection := (s.connection.request s.issued f).1, issued := s.issued + 1 }
  | .traffic t => { s with connection := s.connection.carry t }
  | .finish ticket => s.after (.finish ticket)

/-- All that requests can tell is the same. -/
structure Alike (s s' : Matching) : Prop where
  issued : s'.issued = s.issued
  closed : s'.connection.closed = s.connection.closed
  waiting : s'.connection.waiting = s.connection.waiting
  pending : s'.connection.pending = s.connection.pending
  answers : s'.connection.answers = s.connection.answers

namespace Alike

variable {s'' : Matching}

theorem refl (s : Matching) : s.Alike s := ⟨rfl, rfl, rfl, rfl, rfl⟩

theorem trans (h : s.Alike s') (h' : s'.Alike s'') : s.Alike s'' :=
  ⟨h'.issued.trans h.issued, h'.closed.trans h.closed, h'.waiting.trans h.waiting,
    h'.pending.trans h.pending, h'.answers.trans h.answers⟩

theorem after (h : s.Alike s') (turn : Turn) : (s.after turn).Alike (s'.after turn) := by
  cases turn with
  | register key =>
    simp only [Matching.after, Connection.register, h.pending, h.closed, h.issued]
    split_ifs
    · exact ⟨rfl, h.closed, h.waiting, h.pending, h.answers⟩
    · exact ⟨rfl, rfl, by rw [h.waiting], rfl, h.answers⟩
  | arrive f =>
    simp only [Matching.after, Connection.arrive, h.pending]
    split
    · exact h
    · exact ⟨h.issued, h.closed, h.waiting, rfl, by rw [h.answers]⟩
  | finish ticket =>
    simp only [Matching.after, Connection.finish, h.waiting]
    split
    · exact h
    · exact ⟨h.issued, h.closed, rfl, by rw [h.pending], by rw [h.answers]⟩
  | close => exact ⟨h.issued, rfl, h.waiting, rfl, h.answers⟩

theorem afterAll (h : s.Alike s') (turns : List Turn) : (s.afterAll turns).Alike (s'.afterAll turns) := by
  induction turns generalizing s s' with
  | nil => exact h
  | cons turn turns ih => exact ih (h.after turn)

end Alike

/-- Turns lead to what requests cannot tell from this. -/
def Reaches (s s' : Matching) : Prop := ∃ turns, (s.afterAll turns).Alike s'

namespace Reaches

variable {s'' : Matching}

theorem of_alike (h : s.Alike s') : s.Reaches s' := ⟨[], h⟩

theorem step (s : Matching) (turn : Turn) : s.Reaches (s.after turn) := ⟨[turn], .refl _⟩

theorem trans (h : s.Reaches s') (h' : s'.Reaches s'') : s.Reaches s'' := by
  obtain ⟨turns, hturns⟩ := h
  obtain ⟨later, hlater⟩ := h'
  refine ⟨turns ++ later, ?_⟩
  rw [afterAll_append]
  exact (hturns.afterAll later).trans hlater

theorem close (c : Connection) (n : Ticket) : Reaches ⟨c, n⟩ ⟨c.close, n⟩ := step ⟨c, n⟩ .close

theorem send (c : Connection) (n : Ticket) (f : Frame) : Reaches ⟨c, n⟩ ⟨(c.send f).1, n⟩ := by
  unfold Connection.send
  split_ifs
  · exact of_alike (.refl _)
  · cases f.encode with
    | ok bytes => exact of_alike (.refl _)
    | error cause => exact close c n

/-- Frames that are looked at arrive in turn, as far as they are responses. -/
theorem lookAt (frames : List Frame) (c : Connection) (n : Ticket) :
    Reaches ⟨c, n⟩ ⟨lookAt frames c, n⟩ := by
  induction frames generalizing c with
  | nil =>
    unfold Connection.lookAt
    split_ifs
    · exact close c n
    · exact of_alike ⟨rfl, rfl, rfl, rfl, rfl⟩
  | cons f rest ih =>
    unfold Connection.lookAt
    split_ifs
    · exact ih c
    · have hqueued : Alike ⟨c, n⟩ ⟨{ c with inbound := c.inbound ++ [f] }, n⟩ :=
        ⟨rfl, rfl, rfl, rfl, rfl⟩
      exact (of_alike hqueued).trans (ih _)
    · exact of_alike ⟨rfl, rfl, rfl, rfl, rfl⟩
    · exact (step ⟨c, n⟩ (.arrive f)).trans (ih (c.arrive f))

theorem advance (c : Connection) (n : Ticket) : Reaches ⟨c, n⟩ ⟨c.advance, n⟩ := by
  unfold Connection.advance
  split_ifs
  · exact of_alike (.refl _)
  · exact lookAt c.backlog c n

theorem append (c : Connection) (n : Ticket) (input : Bytes) : Alike ⟨c, n⟩ ⟨c.append input, n⟩ := by
  unfold Connection.append
  split_ifs
  · exact .refl _
  · rcases Frame.collect (c.buffer ++ input) with ⟨frames, left⟩
    cases left with
    | ok buffer => exact ⟨rfl, rfl, rfl, rfl, rfl⟩
    | error cause => exact ⟨rfl, rfl, rfl, rfl, rfl⟩

theorem carry (c : Connection) (n : Ticket) (t : Traffic) : Reaches ⟨c, n⟩ ⟨c.carry t, n⟩ := by
  cases t with
  | bytes input => exact of_alike (append c n input)
  | look => exact advance c n
  | inputEnds => exact of_alike ⟨rfl, rfl, rfl, rfl, rfl⟩
  | send f => exact send c n f
  | serve =>
    unfold Connection.carry takeNext?
    cases c.inbound with
    | nil => exact of_alike (.refl _)
    | cons f rest =>
      have htaken : Alike ⟨c, n⟩ ⟨{ c with inbound := rest }, n⟩ := ⟨rfl, rfl, rfl, rfl, rfl⟩
      exact (of_alike htaken).trans (advance _ n)
  | dismiss => exact of_alike ⟨rfl, rfl, rfl, rfl, rfl⟩
  | shutdown =>
    unfold Connection.carry shutdown
    extract_lets held
    have hheld : Alike ⟨c, n⟩ ⟨{ c with inbound := c.inbound ++ held }, n⟩ :=
      ⟨rfl, rfl, rfl, rfl, rfl⟩
    exact (of_alike hheld).trans (close _ n)

theorem operate (s : Matching) (operation : Operation) : s.Reaches (s.operate operation) := by
  cases operation with
  | request f =>
    have hregistered := step s (.register f.key)
    show s.Reaches ⟨(s.connection.request s.issued f).1, s.issued + 1⟩
    rcases request_eq s.connection s.issued f with heq | heq
    · rw [heq]
      exact hregistered
    · rw [heq]
      exact hregistered.trans (close _ _)
  | traffic t => exact carry s.connection s.issued t
  | finish ticket => exact step s (.finish ticket)

end Reaches

/-- Whatever a program does with a connection comes down to turns of its requests. -/
theorem reaches_operations (operations : List Operation) :
    start.Reaches (operations.foldl operate start) := by
  induction operations using List.reverseRecOn with
  | nil => exact .of_alike (.refl _)
  | append_singleton operations operation ih =>
    rw [List.foldl_append]
    exact ih.trans (.operate _ operation)

end Matching
end DescriptorExchange.Connection
