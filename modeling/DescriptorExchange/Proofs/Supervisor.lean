import DescriptorExchange.Supervisor
import DescriptorExchange.Simulation.Service
import Mathlib.Data.List.Induction
import Mathlib.Tactic.Common

/-!
What the supervisor reports. Attempts to connect end one way or the other, connections close and a shutdown
comes in any order, and every connection but the first is reported as the host coming back, every loss of one
that is seen as the host going away, each at a time when the link to the host is as reported.
-/
namespace DescriptorExchange

namespace LinkAction

def posting? : LinkAction → Option Posting
  | post p => some p
  | install | clear => none

/-- Whether requests have a connection after an action. -/
def carry (linked : Bool) : LinkAction → Bool
  | install => true
  | clear => false
  | post _ => linked

end LinkAction

/-- The posting tells whether the host can be reached. -/
def Posting.isReport : Posting → Bool
  | .hostDown | .hostUp => true
  | _ => false

/-- Under a supervisor, with a coordinator that takes what is posted. -/
structure Service.Supervised (v : Service) (s : Supervisor) (linked : Bool) : Prop where
  supervisor : v.supervisor = s
  alive : v.world.coordinator.state = .running
  link : v.bridge.link.isSome = linked

namespace Supervisor

variable {s s' : Supervisor} {fetchOnStart : Bool} {event : LinkEvent} {events : List LinkEvent}
  {actions : List LinkAction} {p : Posting} {reports : List Posting}

/-- The event can come to the supervisor: an attempt ends that has been made, a connection closes that is up. -/
def awaits (s : Supervisor) : LinkEvent → Bool
  | .refused | .opened => s.state = .connecting
  | .pauseOver => s.state = .pausing
  | .closed => s.state = .connected
  | .shutdown => s.state = .connecting ∨ s.state = .pausing ∨ s.state = .connected

/-- What the supervisor does about an event that can come to it. -/
inductive Takes (s : Supervisor) : LinkEvent → Supervisor → List LinkAction → Prop
  | refused (hs : s.state = .connecting) : Takes s .refused { s with state := .pausing } []
  | pauseOver (hs : s.state = .pausing) : Takes s .pauseOver { s with state := .connecting } []
  | opened (hs : s.state = .connecting) :
      Takes s .opened { s with state := .connected } (.install :: s.greeting)
  | closed (hs : s.state = .connected) :
      Takes s .closed { s with state := .connecting, reconnecting := true } [.clear, .post .hostDown]
  | hangsUp (hs : s.state = .connected) : Takes s .shutdown { s with state := .stopped } [.clear]
  | givesUp (hs : s.state = .connecting ∨ s.state = .pausing) :
      Takes s .shutdown { s with state := .stopped } []

theorem takes_step (h : s.awaits event) : s.Takes event (s.step event).1 (s.step event).2 := by
  cases event with
  | refused =>
    have hs : s.state = .connecting := by simpa [awaits] using h
    simpa only [step, if_pos hs] using Takes.refused hs
  | pauseOver =>
    have hs : s.state = .pausing := by simpa [awaits] using h
    simpa only [step, if_pos hs] using Takes.pauseOver hs
  | opened =>
    have hs : s.state = .connecting := by simpa [awaits] using h
    simpa only [step, if_pos hs] using Takes.opened hs
  | closed =>
    have hs : s.state = .connected := by simpa [awaits] using h
    simpa only [step, if_pos hs] using Takes.closed hs
  | shutdown =>
    have hs : s.state = .connecting ∨ s.state = .pausing ∨ s.state = .connected := by
      simpa [awaits] using h
    rcases hs with hs | hs | hs
    · simpa only [step, hs] using Takes.givesUp (.inl hs)
    · simpa only [step, hs] using Takes.givesUp (.inr hs)
    · simpa only [step, hs] using Takes.hangsUp hs

theorem step_of_not_awaits (h : s.awaits event = false) : s.step event = (s, []) := by
  cases event <;> cases hs : s.state <;> simp_all [awaits, step]

section course

def afterAll (s : Supervisor) (events : List LinkEvent) : Supervisor :=
  events.foldl (fun s event => (s.step event).1) s

/-- The events that come to the supervisor, without those that cannot. -/
def taken (s : Supervisor) : List LinkEvent → List LinkEvent
  | [] => []
  | event :: rest =>
    (if s.awaits event then [event] else []) ++ (s.step event).1.taken rest

/-- All it does, in order. -/
def doings (s : Supervisor) : List LinkEvent → List LinkAction
  | [] => []
  | event :: rest => (s.step event).2 ++ (s.step event).1.doings rest

theorem afterAll_concat (s : Supervisor) (events : List LinkEvent) (event : LinkEvent) :
    s.afterAll (events ++ [event]) = ((s.afterAll events).step event).1 := by
  simp [afterAll]

theorem taken_concat (s : Supervisor) (events : List LinkEvent) (event : LinkEvent) :
    s.taken (events ++ [event]) =
      s.taken events ++ if (s.afterAll events).awaits event then [event] else [] := by
  induction events generalizing s with
  | nil => exact List.append_nil _
  | cons first rest ih =>
    simp only [List.cons_append, taken, ih, List.append_assoc]
    rfl

theorem doings_concat (s : Supervisor) (events : List LinkEvent) (event : LinkEvent) :
    s.doings (events ++ [event]) = s.doings events ++ ((s.afterAll events).step event).2 := by
  induction events generalizing s with
  | nil => exact List.append_nil _
  | cons first rest ih =>
    simp only [List.cons_append, doings, ih, List.append_assoc]
    rfl

end course

/-- Whether requests have a connection after some actions, when they had none before. -/
def linked (actions : List LinkAction) : Bool := actions.foldl LinkAction.carry false

/-- What is to be posted about an event, by the events that came before it: the first connection begins a
cycle if that is wanted, and every other one brings the host back. -/
def due (fetchOnStart : Bool) (before : List LinkEvent) : LinkEvent → List Posting
  | .opened => if .opened ∈ before then [.hostUp] else if fetchOnStart then [.resync] else []
  | .closed => [.hostDown]
  | .refused | .pauseOver | .shutdown => []

/-- The link is as a posting tells it. -/
def Agrees (linked : Bool) (p : Posting) : Prop :=
  (p = .hostDown → linked = false) ∧ (p = .resync ∨ p = .hostUp → linked = true)

/-- The host goes away and comes back by turns, and goes away first. -/
def Alternates (reports : List Posting) : Prop :=
  ∀ k p, reports[k]? = some p → p = if k % 2 = 0 then .hostDown else .hostUp

/-- What is posted about whether the host can be reached. -/
def reportsOf (actions : List LinkAction) : List Posting :=
  (actions.filterMap LinkAction.posting?).filter Posting.isReport

theorem reportsOf_append (actions more : List LinkAction) :
    reportsOf (actions ++ more) = reportsOf actions ++ reportsOf more := by
  simp [reportsOf]

theorem Alternates.concat (h : Alternates reports)
    (hp : p = if reports.length % 2 = 0 then .hostDown else .hostUp) : Alternates (reports ++ [p]) := by
  intro k q hk
  rcases Nat.lt_trichotomy k reports.length with hlt | rfl | hgt
  · rw [List.getElem?_append_left hlt] at hk
    exact h k q hk
  · simp at hk
    exact hk ▸ hp
  · rw [List.getElem?_eq_none (by simp; omega)] at hk
    simp at hk

theorem Alternates.getLast?_of_odd (h : Alternates reports) (hodd : reports.length % 2 = 1) :
    reports.getLast? = some .hostDown := by
  have hlt : reports.length - 1 < reports.length := by omega
  have hlast := List.getElem?_eq_getElem hlt
  have heven : (reports.length - 1) % 2 = 0 := by omega
  rw [List.getLast?_eq_getElem?, hlast]
  simpa [heven] using h _ _ hlast

section actions

/-- The actions about an event post what is due. -/
theorem Takes.posts (h : s.Takes event s' actions) {before : List LinkEvent}
    (hbefore : s.state = .connecting → (s.reconnecting = true ↔ .opened ∈ before)) :
    actions.filterMap LinkAction.posting? = due s.fetchOnStart before event := by
  cases h with
  | opened hs =>
    simp only [due, ← hbefore hs, List.filterMap_cons, LinkAction.posting?, greeting]
    split_ifs <;> rfl
  | refused => rfl
  | pauseOver => rfl
  | closed => rfl
  | hangsUp => rfl
  | givesUp => rfl

/-- They leave a connection just if the supervisor is connected then. -/
theorem Takes.carries (h : s.Takes event s' actions) :
    actions.foldl LinkAction.carry (decide (s.state = .connected)) = decide (s'.state = .connected) := by
  cases h with
  | opened hs =>
    simp only [greeting]
    split_ifs <;> rfl
  | refused hs => simp [hs]
  | pauseOver hs => simp [hs]
  | closed => rfl
  | hangsUp => rfl
  | givesUp hs => rcases hs with hs | hs <;> simp [hs]

theorem foldl_carry_map_post (linked : Bool) (postings : List Posting) :
    (postings.map LinkAction.post).foldl LinkAction.carry linked = linked := by
  induction postings with
  | nil => rfl
  | cons p rest ih => exact ih

/-- What is posted after a first action finds the link as that action leaves it. -/
theorem agrees_of_first (first : LinkAction) (postings : List Posting) {front back : List LinkAction}
    {linked : Bool} (hfirst : first.posting? = none)
    (hagrees : ∀ q ∈ postings, Agrees (first.carry linked) q)
    (hsplit : first :: postings.map .post = front ++ .post p :: back) :
    Agrees (front.foldl LinkAction.carry linked) p := by
  cases front with
  | nil =>
    obtain ⟨rfl, -⟩ := List.cons.inj hsplit
    simp [LinkAction.posting?] at hfirst
  | cons a front =>
    obtain ⟨rfl, hrest⟩ := List.cons.inj hsplit
    obtain ⟨done, later, rfl, rfl, hlater⟩ := List.map_eq_append_iff.mp hrest
    obtain ⟨q, rest, rfl, hq, -⟩ := List.map_eq_cons_iff.mp hlater
    obtain rfl := LinkAction.post.inj hq
    rw [List.foldl_cons, foldl_carry_map_post]
    exact hagrees q (by simp)

/-- Each posting comes when the link is as it tells. -/
theorem Takes.agrees (h : s.Takes event s' actions) {front back : List LinkAction}
    (hsplit : actions = front ++ .post p :: back) (linked : Bool) :
    Agrees (front.foldl LinkAction.carry linked) p := by
  cases h with
  | opened hs =>
    obtain ⟨postings, hgreeting, hback⟩ : ∃ postings : List Posting,
        s.greeting = postings.map .post ∧ ∀ q ∈ postings, q = .resync ∨ q = .hostUp := by
      unfold greeting
      split_ifs
      · exact ⟨[.hostUp], rfl, by simp⟩
      · exact ⟨[.resync], rfl, by simp⟩
      · exact ⟨[], rfl, by simp⟩
    rw [hgreeting] at hsplit
    refine agrees_of_first .install postings rfl (fun q hq => ⟨?_, fun _ => rfl⟩) hsplit
    rintro rfl
    simpa using hback _ hq
  | closed hs =>
    refine agrees_of_first .clear [.hostDown] rfl (fun q hq => ⟨fun _ => rfl, ?_⟩) hsplit
    obtain rfl := List.mem_singleton.mp hq
    simp
  | hangsUp hs => exact agrees_of_first .clear [] rfl (by simp) hsplit
  | refused => simp at hsplit
  | pauseOver => simp at hsplit
  | givesUp => simp at hsplit

end actions

/-- How far the supervisor has come with the events it has taken and what it has done about them. -/
structure Course (fetchOnStart : Bool) (taken : List LinkEvent) (actions : List LinkAction)
    (s : Supervisor) : Prop where
  setting : s.fetchOnStart = fetchOnStart
  reconnecting : s.state = .connecting ∨ s.state = .pausing →
    (s.reconnecting = true ↔ .opened ∈ taken)
  opened : s.state = .connected → .opened ∈ taken
  linked : linked actions = decide (s.state = .connected)
  agrees : ∀ front p back, actions = front ++ .post p :: back → Agrees (Supervisor.linked front) p
  alternates : Alternates (reportsOf actions)
  /-- After a loss of the connection the host is to come back next. -/
  away : s.state = .connecting ∨ s.state = .pausing →
    (reportsOf actions).length % 2 = if s.reconnecting then 1 else 0
  back : s.state = .connected → (reportsOf actions).length % 2 = 0

namespace Course

variable {taken : List LinkEvent} {more : List LinkAction}

theorem start (fetchOnStart : Bool) : Course fetchOnStart [] [] (start fetchOnStart) where
  setting := rfl
  reconnecting _ := by simp [Supervisor.start]
  opened h := by simp [Supervisor.start] at h
  linked := rfl
  agrees front p back h := by simp at h
  alternates k p h := by simp [reportsOf] at h
  away _ := rfl
  back _ := rfl

/-- An event about which nothing is done leaves the reports, and the link, as they were. -/
theorem quiet (h : Course fetchOnStart taken actions s) (htakes : s.Takes event s' [])
    (hsame : s'.fetchOnStart = s.fetchOnStart ∧ s'.reconnecting = s.reconnecting)
    (hidle : s.state = .connecting ∨ s.state = .pausing) (hevent : event ≠ .opened)
    (hstate : s'.state ≠ .connected) : Course fetchOnStart (taken ++ [event]) actions s' where
  setting := hsame.1.trans h.setting
  reconnecting _ := by
    rw [hsame.2, h.reconnecting hidle]
    simp [hevent.symm]
  opened hconnected := absurd hconnected hstate
  linked := by
    have hcarries := htakes.carries
    rw [List.foldl_nil] at hcarries
    exact h.linked.trans hcarries
  agrees := h.agrees
  alternates := h.alternates
  away _ := hsame.2 ▸ h.away hidle
  back hconnected := absurd hconnected hstate

/-- Whatever has been posted, before an event or about it, was posted at the right time. -/
theorem agrees_append (h : Course fetchOnStart taken actions s) (htakes : s.Takes event s' more)
    (front : List LinkAction) (p : Posting) (back : List LinkAction)
    (hsplit : actions ++ more = front ++ .post p :: back) : Agrees (Supervisor.linked front) p := by
  rcases List.append_eq_append_iff.mp hsplit with ⟨done, rfl, hmore⟩ | ⟨rest, hactions, hrest⟩
  · have hagrees := htakes.agrees hmore (Supervisor.linked actions)
    rwa [Supervisor.linked, ← List.foldl_append] at hagrees
  · cases rest with
    | nil =>
      obtain rfl : actions = front := by simpa using hactions
      have hmore : more = [] ++ .post p :: back := hrest.symm
      exact htakes.agrees hmore _
    | cons first rest =>
      obtain ⟨rfl, -⟩ := List.cons.inj hrest
      exact h.agrees front p rest hactions

theorem takes (h : Course fetchOnStart taken actions s) (htakes : s.Takes event s' more) :
    Course fetchOnStart (taken ++ [event]) (actions ++ more) s' := by
  have hlinked : Supervisor.linked (actions ++ more) = decide (s'.state = .connected) := by
    rw [← htakes.carries, ← h.linked]
    exact List.foldl_append
  have hagrees := h.agrees_append htakes
  have hreports := reportsOf_append actions more
  cases htakes with
  | refused hs =>
    rw [List.append_nil]
    exact h.quiet (.refused hs) ⟨rfl, rfl⟩ (.inl hs) (by simp) (by simp)
  | pauseOver hs =>
    rw [List.append_nil]
    exact h.quiet (.pauseOver hs) ⟨rfl, rfl⟩ (.inr hs) (by simp) (by simp)
  | givesUp hs =>
    rw [List.append_nil]
    exact h.quiet (.givesUp hs) ⟨rfl, rfl⟩ hs (by simp) (by simp)
  | opened hs =>
    have hparity := h.away (.inl hs)
    have hgreeting : reportsOf (.install :: s.greeting) = if s.reconnecting then [.hostUp] else [] := by
      unfold greeting
      split_ifs <;> rfl
    rw [hgreeting] at hreports
    refine ⟨h.setting, by simp, by simp, hlinked, hagrees, ?_, by simp, fun _ => ?_⟩
    all_goals rw [hreports]
    · split_ifs with hagain
      · exact h.alternates.concat (by simp [hparity, hagain])
      · simpa using h.alternates
    · rw [List.length_append]
      split_ifs at hparity ⊢ <;> simp <;> omega
  | closed hs =>
    have hparity := h.back hs
    have hreports' : reportsOf (actions ++ [.clear, .post .hostDown]) = reportsOf actions ++ [.hostDown] :=
      hreports
    refine ⟨h.setting, fun _ => by simp [h.opened hs], by simp, hlinked, hagrees, ?_, fun _ => ?_, by simp⟩
    all_goals rw [hreports']
    · exact h.alternates.concat (by simp [hparity])
    · rw [List.length_append, List.length_singleton, if_pos rfl]
      omega
  | hangsUp hs =>
    refine ⟨h.setting, by simp, by simp, hlinked, hagrees, ?_, by simp, by simp⟩
    have hnone : reportsOf (actions ++ [.clear]) = reportsOf actions := hreports.trans (List.append_nil _)
    exact hnone ▸ h.alternates

end Course

theorem course_afterAll (fetchOnStart : Bool) (events : List LinkEvent) :
    Course fetchOnStart ((start fetchOnStart).taken events) ((start fetchOnStart).doings events)
      ((start fetchOnStart).afterAll events) := by
  induction events using List.reverseRecOn with
  | nil => exact .start fetchOnStart
  | append_singleton events event ih =>
    rw [taken_concat, doings_concat, afterAll_concat]
    by_cases h : ((start fetchOnStart).afterAll events).awaits event
    · rw [if_pos h]
      exact ih.takes (takes_step h)
    · rw [if_neg h, step_of_not_awaits (by simpa using h), List.append_nil, List.append_nil]
      exact ih

section service

variable {v : Service} {linked : Bool}

/-- Whatever the supervisor wants is done as long as the coordinator takes what is posted. -/
theorem supervised_follow (h : v.Supervised s linked) (actions : List LinkAction) :
    (v.follow actions).Supervised s (actions.foldl LinkAction.carry linked) ∧
    (v.follow actions).world.coordinator = { v.world.coordinator with
      inbox := v.world.coordinator.inbox ++ actions.filterMap LinkAction.posting? } := by
  induction actions generalizing v linked with
  | nil => exact ⟨h, by simp [Service.follow]⟩
  | cons action rest ih =>
    cases action with
    | install => exact ih (v := v.setLink (some .fresh)) ⟨h.supervisor, h.alive, rfl⟩
    | clear => exact ih (v := v.setLink none) ⟨h.supervisor, h.alive, rfl⟩
    | post p =>
      let posted : Coordinator := { v.world.coordinator with inbox := v.world.coordinator.inbox ++ [p] }
      have hpost : v.world.coordinator.post? p = some posted := if_pos h.alive
      have hfollow : v.follow (.post p :: rest) = Service.follow rest { v with world.coordinator := posted } := by
        rw [Service.follow, hpost]
      obtain ⟨hsupervised, hinbox⟩ := ih (v := { v with world.coordinator := posted })
        ⟨h.supervisor, h.alive, h.link⟩
      rw [hfollow]
      refine ⟨hsupervised, hinbox.trans ?_⟩
      simp [posted, LinkAction.posting?]

theorem supervised_notice (h : v.Supervised s linked) (event : LinkEvent) :
    (v.notice event).Supervised (s.step event).1 ((s.step event).2.foldl LinkAction.carry linked) ∧
    (v.notice event).world.coordinator = { v.world.coordinator with
      inbox := v.world.coordinator.inbox ++ (s.step event).2.filterMap LinkAction.posting? } := by
  obtain ⟨rfl, halive, hlink⟩ := h
  exact supervised_follow (v := { v with supervisor := (v.supervisor.step event).1 }) ⟨rfl, halive, hlink⟩ _

end service

/-- Attempts to connect fail and succeed, connections close, and a shutdown comes, in any order. Each event
that can come posts what is due about it and nothing else, and each posting finds the link as it tells; an
event that cannot come changes nothing. A service whose coordinator runs does all this. -/
theorem reachability_reported (fetchOnStart : Bool) (events : List LinkEvent) (event : LinkEvent) :
    let s := (start fetchOnStart).afterAll events
    let before := (start fetchOnStart).taken events
    let done := (start fetchOnStart).doings events
    (s.awaits event → (s.step event).2.filterMap LinkAction.posting? = due fetchOnStart before event) ∧
    (s.awaits event = false → s.step event = (s, [])) ∧
    (∀ front p back, done = front ++ .post p :: back → Agrees (linked front) p) ∧
    Alternates (reportsOf done) ∧
    (s.state = .connecting ∨ s.state = .pausing → .opened ∈ before →
      (reportsOf done).getLast? = some .hostDown) ∧
    (linked done = true ↔ s.state = .connected) ∧
    ∀ v : Service, v.Supervised s (linked done) →
      (v.notice event).Supervised (s.step event).1 (linked (done ++ (s.step event).2)) ∧
      (v.notice event).world.coordinator = { v.world.coordinator with
        inbox := v.world.coordinator.inbox ++ (s.step event).2.filterMap LinkAction.posting? } ∧
      ∀ front p back, (s.step event).2 = front ++ .post p :: back →
        Agrees (Service.follow front { v with supervisor := (s.step event).1 }).bridge.link.isSome p := by
  intro s before done
  have hcourse : Course fetchOnStart before done s := course_afterAll fetchOnStart events
  refine ⟨fun h => ?_, step_of_not_awaits, hcourse.agrees, hcourse.alternates, fun hidle hopened => ?_, ?_,
    fun v hv => ?_⟩
  · have hposts := (takes_step h).posts fun hs => hcourse.reconnecting (.inl hs)
    rwa [hcourse.setting] at hposts
  · apply hcourse.alternates.getLast?_of_odd
    rw [hcourse.away hidle, if_pos ((hcourse.reconnecting hidle).mpr hopened)]
  · rw [hcourse.linked, decide_eq_true_iff]
  · obtain ⟨hnoticed, hinbox⟩ := supervised_notice hv event
    refine ⟨?_, hinbox, fun front p back hsplit => ?_⟩
    · rwa [linked, List.foldl_append]
    · have hfollowed := (supervised_follow (v := { v with supervisor := (s.step event).1 })
        ⟨rfl, hv.alive, hv.link⟩ front).1
      have hagrees := (course_afterAll fetchOnStart (events ++ [event])).agrees (done ++ front) p back
        (by rw [doings_concat, List.append_assoc, ← hsplit])
      rw [hfollowed.link]
      rwa [linked, List.foldl_append] at hagrees

/-- A connection is up at the second attempt, and closes. The next attempt fails, and another is made. -/
def lostOnce : List LinkEvent := [.refused, .pauseOver, .opened, .closed, .refused, .pauseOver]

/-- A service whose supervisor makes that last attempt. -/
def serviceLostOnce : Service :=
  { world := .start
      (.start (.start .standard .standard (.empty .localDefault .hostDefault) .empty) true) .standard
      { host := default, link := none, nextTicket := 0, answers := [] }
    supervisor := (start true).afterAll lostOnce, script := [], attempts := 3, ages := [] }

theorem reachability_reported_lost_once :
    let s := (start true).afterAll lostOnce
    let done := (start true).doings lostOnce
    (s.step .opened).2.filterMap LinkAction.posting? = [.hostUp] ∧ s.step .closed = (s, []) ∧
    Agrees true .resync ∧ Alternates [.hostDown] ∧ (reportsOf done).getLast? = some .hostDown ∧
    linked done = false ∧ (serviceLostOnce.notice .opened).bridge.link.isSome ∧
    (serviceLostOnce.notice .opened).world.coordinator.inbox.length = 1 ∧
    Agrees (Service.follow [.install] serviceLostOnce).bridge.link.isSome .hostUp := by
  intro s done
  obtain ⟨hposts, -, hagrees, halternates, haway, hlinked, hservice⟩ :=
    reachability_reported true lostOnce .opened
  obtain ⟨-, hquiet, -⟩ := reachability_reported true lostOnce .closed
  obtain ⟨hnoticed, hinbox, hreported⟩ := hservice serviceLostOnce ⟨rfl, rfl, rfl⟩
  refine ⟨hposts (by decide), hquiet (by decide), hagrees [.install] .resync _ rfl, halternates,
    haway (by decide) (by decide), ?_, hnoticed.link, ?_, hreported [.install] .hostUp [] rfl⟩
  · exact Bool.eq_false_iff.mpr fun h => absurd (hlinked.mp h) (by decide)
  · rw [hinbox]
    rfl

end Supervisor
end DescriptorExchange
