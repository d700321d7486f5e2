import DescriptorExchange.Proofs.Connection.Matching
import DescriptorExchange.Proofs.Splits

/-!
What becomes of the entry of a request. A request that has its response may finish late, when another one has
registered under the same endpoint and instance id. It then takes the entry of the other one along, which is
the one way for a request to end as closed on an open connection.
-/
namespace DescriptorExchange.Connection.Matching

variable {s s' : Matching} {turn : Turn} {turns : List Turn} {ticket other : Ticket} {key : RequestKey}
  {f : Frame} {message : Message}

/-- A request that waits under the same key, that registered earlier and can end by now, would take the
entry of the request along. -/
structure Displaces (s : Matching) (key : RequestKey) (ticket other : Ticket) : Prop where
  entry : s.connection.pending[key]? = some ticket
  same : s.connection.waiting[other]? = some key
  earlier : other < ticket
  ended : (s.connection.outcome? other).isSome

/-- The turns that take the entry of a request away. -/
inductive Leaves (s : Matching) (key : RequestKey) (ticket : Ticket) : Turn → Prop
  | answered {f : Frame} (hkey : f.key = key) : Leaves s key ticket (.arrive f)
  | finished : Leaves s key ticket (.finish ticket)
  | displaced {other : Ticket} (h : s.Displaces key ticket other) : Leaves s key ticket (.finish other)
  | closed : Leaves s key ticket .close

/-- Whoever else waits under the key of an entry registered earlier and has its outcome. -/
theorem Sound.displaces (h : s.Sound) (hentry : s.connection.pending[key]? = some ticket)
    (hsame : s.connection.waiting[other]? = some key) (hne : other ≠ ticket) :
    s.Displaces key ticket other where
  entry := hentry
  same := hsame
  earlier := Nat.lt_of_le_of_ne (h.latest hentry hsame) hne
  ended := by
    have hnot : ¬ some ticket = some other := fun heq => hne (Option.some.inj heq).symm
    rw [outcome?, hsame]
    cases hanswer : s.connection.answers[other]? with
    | some response => rfl
    | none =>
      show (if s.connection.pending[key]? = some other then none
        else some (.error .closed) : Option (Except TransportError Message)).isSome
      rw [hentry, if_neg hnot]
      rfl

theorem Sound.gone (h : s.Sound) (hentry : s.connection.pending[key]? = some ticket)
    (hleaves : s.Leaves key ticket turn) : (s.after turn).connection.pending[key]? = none := by
  have htaken {other : Ticket} (hsame : s.connection.waiting[other]? = some key) :
      (s.connection.finish other).pending[key]? = none := by
    rw [(finish_of_waiting hsame).2]
    exact Std.ExtTreeMap.getElem?_erase_self
  cases hleaves with
  | @answered f hkey =>
    subst hkey
    rw [after, arrive, hentry]
    exact Std.ExtTreeMap.getElem?_erase_self
  | finished => exact htaken (h.waits hentry)
  | displaced hdisplaces => exact htaken hdisplaces.same
  | closed => simp [after, close]

theorem Sound.kept (h : s.Sound) (hentry : s.connection.pending[key]? = some ticket)
    (hstays : ¬ s.Leaves key ticket turn) :
    (s.after turn).connection.pending[key]? = some ticket := by
  have hchanges := s.after_changes turn
  generalize s.after turn = s' at hchanges ⊢
  cases hchanges with
  | refused => exact hentry
  | @registered new hfree =>
    have hne : key ≠ new := by
      rintro rfl
      cases hfree.symm.trans hentry
    exact (Entries.getElem?_insert_of_ne hne).trans hentry
  | unsolicited => exact hentry
  | answered =>
    exact (Entries.getElem?_erase_of_ne fun heq => hstays (.answered heq.symm)).trans hentry
  | absent => exact hentry
  | @finished other key' hwaits =>
    have hne : key ≠ key' := by
      rintro rfl
      by_cases hown : other = ticket
      · exact hstays (hown ▸ .finished)
      · exact hstays (.displaced (h.displaces hentry hwaits hown))
    exact (Entries.getElem?_erase_of_ne hne).trans hentry
  | closed => exact absurd .closed hstays

/-- One of the turns was like this, at the time. -/
def Occurred (turns : List Turn) (p : Matching → Turn → Prop) : Prop :=
  ∃ before turn later, turns = before ++ turn :: later ∧ p (start.afterAll before) turn

theorem occurred_concat {p : Matching → Turn → Prop} :
    Occurred (turns ++ [turn]) p ↔ Occurred turns p ∨ p (start.afterAll turns) turn :=
  Splits.exists_concat_iff.trans or_comm

/-- Another request finished and took the entry of this one along. -/
def Displaced (turns : List Turn) (ticket : Ticket) : Prop :=
  Occurred turns fun s turn => ∃ key other, turn = .finish other ∧ s.Displaces key ticket other

/-- A response arrived while the request was the one that waited for it. -/
def Handed (turns : List Turn) (ticket : Ticket) (message : Message) : Prop :=
  Occurred turns fun s turn =>
    ∃ f, turn = .arrive f ∧ s.connection.pending[f.key]? = some ticket ∧ f.message = message

/-- Every response that was handed over arrived, and a request that lost its entry on an open connection
without a response was displaced. -/
structure Explained (turns : List Turn) (s : Matching) : Prop where
  handed : ∀ {ticket : Ticket} {message : Message},
    s.connection.answers[ticket]? = some message → Handed turns ticket message
  left : ∀ {ticket : Ticket} {key : RequestKey}, s.connection.closed = false →
    s.connection.waiting[ticket]? = some key → s.connection.answers[ticket]? = none →
      s.connection.pending[key]? = some ticket ∨ Displaced turns ticket
  displaced : ∀ {ticket : Ticket}, Displaced turns ticket → ticket < s.issued ∧
    s.connection.answers[ticket]? = none ∧
      ∀ key : RequestKey, s.connection.pending[key]? ≠ some ticket

theorem Explained.start : Explained [] start where
  handed h := by simp [Matching.start, fresh] at h
  left _ h := by simp [Matching.start, fresh] at h
  displaced := by
    rintro ticket ⟨before, turn, later, heq, -⟩
    simp at heq

section

variable (h : Explained turns s) (hs : s.Sound) (hrun : s = Matching.start.afterAll turns)
  (hchanges : s.Changes turn s')
include h hrun hchanges

theorem Explained.handed_changes (hmessage : s'.connection.answers[ticket]? = some message) :
    Handed (turns ++ [turn]) ticket message := by
  apply occurred_concat.mpr
  cases hchanges with
  | refused => exact .inl (h.handed hmessage)
  | registered => exact .inl (h.handed hmessage)
  | unsolicited => exact .inl (h.handed hmessage)
  | @answered f receiver hentry =>
    replace hmessage := (Entries.getElem?_insert ..).symm.trans hmessage
    split_ifs at hmessage with hsame
    · subst hsame
      exact .inr ⟨f, rfl, hrun ▸ hentry, Option.some.inj hmessage⟩
    · exact .inl (h.handed hmessage)
  | absent => exact .inl (h.handed hmessage)
  | finished =>
    replace hmessage := (Entries.getElem?_erase ..).symm.trans hmessage
    split_ifs at hmessage
    exact .inl (h.handed hmessage)
  | closed => exact .inl (h.handed hmessage)

include hs

theorem Explained.left_changes (hopen : s'.connection.closed = false)
    (hwaits : s'.connection.waiting[ticket]? = some key)
    (hnone : s'.connection.answers[ticket]? = none) :
    s'.connection.pending[key]? = some ticket ∨ Displaced (turns ++ [turn]) ticket := by
  have hpast (hold : s.connection.pending[key]? = some ticket ∨ Displaced turns ticket)
      (hkept : s.connection.pending[key]? = some ticket →
        s'.connection.pending[key]? = some ticket) :
      s'.connection.pending[key]? = some ticket ∨ Displaced (turns ++ [turn]) ticket :=
    hold.imp hkept fun hd => occurred_concat.mpr (.inl hd)
  cases hchanges with
  | refused => exact hpast (h.left hopen hwaits hnone) id
  | @registered new hfree =>
    replace hwaits := (Entries.getElem?_insert ..).symm.trans hwaits
    split_ifs at hwaits with hnew
    · obtain rfl := Option.some.inj hwaits
      exact .inl (hnew ▸ Std.ExtTreeMap.getElem?_insert_self)
    · apply hpast (h.left hopen hwaits hnone)
      intro hentry
      have hne : key ≠ new := by
        rintro rfl
        cases hfree.symm.trans hentry
      exact (Entries.getElem?_insert_of_ne hne).trans hentry
  | unsolicited => exact hpast (h.left hopen hwaits hnone) id
  | @answered f receiver hentry =>
    replace hnone := (Entries.getElem?_insert ..).symm.trans hnone
    split_ifs at hnone with hother
    apply hpast (h.left hopen hwaits hnone)
    intro hown
    have hne : key ≠ f.key := by
      rintro rfl
      exact hother (Option.some.inj (hown.symm.trans hentry))
    exact (Entries.getElem?_erase_of_ne hne).trans hown
  | absent => exact hpast (h.left hopen hwaits hnone) id
  | @finished other key' hother =>
    replace hwaits := (Entries.getElem?_erase ..).symm.trans hwaits
    split_ifs at hwaits with hne
    replace hnone := (Entries.getElem?_erase_of_ne hne).symm.trans hnone
    by_cases hsame : key = key'
    · subst hsame
      rcases h.left hopen hwaits hnone with hentry | hd
      · exact .inr (occurred_concat.mpr
          (.inr ⟨key, other, rfl, hrun ▸ hs.displaces hentry hother (Ne.symm hne)⟩))
      · exact .inr (occurred_concat.mpr (.inl hd))
    · exact hpast (h.left hopen hwaits hnone) (Entries.getElem?_erase_of_ne hsame).trans
  | closed => cases hopen

theorem Explained.displaced_changes (hd : Displaced (turns ++ [turn]) ticket) : ticket < s'.issued ∧
    s'.connection.answers[ticket]? = none ∧
    ∀ key : RequestKey, s'.connection.pending[key]? ≠ some ticket := by
  rcases occurred_concat.mp hd with hpast | ⟨key, other, rfl, hnow⟩
  · obtain ⟨hissued, hnone, hout⟩ := h.displaced hpast
    cases hchanges with
    | refused => exact ⟨Nat.lt_succ_of_lt hissued, hnone, hout⟩
    | registered =>
      refine ⟨Nat.lt_succ_of_lt hissued, hnone, fun key hentry => ?_⟩
      replace hentry := (Entries.getElem?_insert ..).symm.trans hentry
      split_ifs at hentry
      · exact Nat.ne_of_gt hissued (Option.some.inj hentry)
      · exact hout key hentry
    | unsolicited => exact ⟨hissued, hnone, hout⟩
    | @answered f receiver hentry =>
      have hne : ticket ≠ receiver := by
        rintro rfl
        exact hout f.key hentry
      refine ⟨hissued, (Entries.getElem?_insert_of_ne hne).trans hnone, fun key hown => ?_⟩
      replace hown := (Entries.getElem?_erase ..).symm.trans hown
      split_ifs at hown
      exact hout key hown
    | absent => exact ⟨hissued, hnone, hout⟩
    | finished =>
      refine ⟨hissued, ?_, fun key hown => ?_⟩
      · exact (Entries.getElem?_erase ..).trans (ite_eq_left_iff.mpr fun _ => hnone)
      · replace hown := (Entries.getElem?_erase ..).symm.trans hown
        split_ifs at hown
        exact hout key hown
    | closed =>
      refine ⟨hissued, hnone, fun key hown => ?_⟩
      simp [close] at hown
  · rw [← hrun] at hnow
    obtain ⟨hentry, hother, hearlier, -⟩ := hnow
    cases hchanges with
    | absent hnone => cases hnone.symm.trans hother
    | @finished _ key' hwaits =>
      obtain rfl := Option.some.inj (hwaits.symm.trans hother)
      refine ⟨hs.numbered (hs.waits hentry), ?_, fun key hown => ?_⟩
      · exact (Entries.getElem?_erase_of_ne (Nat.ne_of_gt hearlier)).trans (hs.unanswered hentry)
      · replace hown := (Entries.getElem?_erase ..).symm.trans hown
        split_ifs at hown with hne
        exact hs.ne_of_entry hne hown (hs.waits hentry) rfl

end

/-- What has become of the requests is explained by the turns. -/
theorem explained_afterAll (turns : List Turn) : Explained turns (start.afterAll turns) := by
  induction turns using List.reverseRecOn with
  | nil => exact .start
  | append_singleton turns turn ih =>
    have hs := sound_afterAll turns
    have hchanges := after_changes (start.afterAll turns) turn
    rw [afterAll_append]
    exact ⟨ih.handed_changes rfl hchanges, ih.left_changes hs rfl hchanges,
      ih.displaced_changes hs rfl hchanges⟩

/-- A response goes to the request whose entry it finds, which has none yet. -/
theorem Sound.answers_arrive (h : s.Sound) :
    (s.after (.arrive f)).connection.answers[ticket]? = some message ↔
      s.connection.answers[ticket]? = some message ∨
      (s.connection.answers[ticket]? = none ∧ s.connection.pending[f.key]? = some ticket ∧
        f.message = message) := by
  simp only [after, arrive]
  cases hentry : s.connection.pending[f.key]? with
  | none => simp
  | some receiver =>
    show (s.connection.answers.insert receiver f.message)[ticket]? = some message ↔ _
    rw [Entries.getElem?_insert]
    by_cases hsame : ticket = receiver
    · subst hsame
      rw [if_pos rfl, h.unanswered hentry]
      simp
    · rw [if_neg hsame]
      simp [Ne.symm hsame]

/-- A request on an open connection can end as closed just if it was displaced. -/
theorem Explained.outcome_closed (h : Explained turns s) (hopen : s.connection.closed = false)
    (hwaits : s.connection.waiting[ticket]? = some key) :
    s.connection.outcome? ticket = some (.error .closed) ↔ Displaced turns ticket := by
  unfold outcome?
  rw [hwaits]
  constructor
  · intro houtcome
    cases hanswer : s.connection.answers[ticket]? with
    | some response => simp [hanswer] at houtcome
    | none =>
      rcases h.left hopen hwaits hanswer with hentry | hd
      · simp [hanswer, hentry] at houtcome
      · exact hd
  · intro hd
    obtain ⟨-, hnone, hout⟩ := h.displaced hd
    simp [hnone, hout key]

/-- Whatever requests register, answer, finish and close in whatever order: an entry never outlives its
request; it leaves when a response for its key arrives, when the request finishes, when the connection closes,
or when an older request with the same key, which could end already, finishes; a response is handed to the
request whose entry it finds and to no other, and only once; and on an open connection a request can end as
closed just if an older one finished after it had registered and took its entry along. -/
theorem response_matching (turns : List Turn) :
    let s := start.afterAll turns
    (∀ (key : RequestKey) (ticket : Ticket), s.connection.pending[key]? = some ticket →
      s.connection.waiting[ticket]? = some key) ∧
    (∀ (key : RequestKey) (ticket : Ticket) (turn : Turn), s.connection.pending[key]? = some ticket →
      (s.Leaves key ticket turn → (s.after turn).connection.pending[key]? = none) ∧
      (¬ s.Leaves key ticket turn → (s.after turn).connection.pending[key]? = some ticket)) ∧
    (∀ (f : Frame) (ticket : Ticket) (message : Message),
      (s.after (.arrive f)).connection.answers[ticket]? = some message ↔
        s.connection.answers[ticket]? = some message ∨
        (s.connection.answers[ticket]? = none ∧ s.connection.pending[f.key]? = some ticket ∧
          f.message = message)) ∧
    (∀ (ticket : Ticket) (message : Message), s.connection.answers[ticket]? = some message →
      Handed turns ticket message) ∧
    (∀ (ticket : Ticket) (key : RequestKey), s.connection.closed = false →
      s.connection.waiting[ticket]? = some key →
        (s.connection.outcome? ticket = some (.error .closed) ↔ Displaced turns ticket)) := by
  intro s
  have hs : s.Sound := sound_afterAll turns
  have h : Explained turns s := explained_afterAll turns
  refine ⟨fun key ticket => hs.waits, fun key ticket turn hentry => ⟨hs.gone hentry, hs.kept hentry⟩,
    fun f ticket message => hs.answers_arrive, fun ticket message => h.handed,
    fun ticket key => h.outcome_closed⟩

/-- A request is answered and finishes only after another one has registered under its key. -/
def lateFinish : List Turn :=
  let request : Frame :=
    { eid := ⟨9⟩, message := { header := .forRequest ⟨5⟩ .platform 0x51, payload := [] } }
  let response : Frame :=
    { eid := ⟨9⟩, message := { header := request.message.header.response, payload := [0] } }
  [.register request.key, .arrive response, .register request.key, .finish 0]

/-- The other one loses its entry, and ends as closed on an open connection. -/
theorem closed_while_open :
    let before := start.afterAll (lateFinish.take 3)
    let s := start.afterAll lateFinish
    before.connection.pending[(⟨⟨9⟩, ⟨5⟩⟩ : RequestKey)]? = some 1 ∧
    before.connection.waiting[0]? = some ⟨⟨9⟩, ⟨5⟩⟩ ∧
    s.connection.pending[(⟨⟨9⟩, ⟨5⟩⟩ : RequestKey)]? = none ∧ s.connection.closed = false ∧
    s.connection.outcome? 1 = some (.error .closed) := by
  decide +kernel

end DescriptorExchange.Connection.Matching
