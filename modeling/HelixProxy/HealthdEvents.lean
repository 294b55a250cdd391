import HelixProxy.HealthdPublish
import Mathlib.Data.List.Destutter

/-!
# The events of a profile

`runProfile` publishes an event when the decided state differs from the one it
last reported, and takes it as reported whether or not the call succeeded. What
subscribers have seen is therefore kept apart here from what the loop remembers.
-/

namespace HelixProxy.Healthd

open Vpn Bus
set_option autoImplicit false

/-- One tick with the outcomes of its bus calls. `SetStatus` is made in every
tick, `PublishEvent` only on a change. -/
structure BusTick where
  poll : Poll
  setStatusOK : Bool := true
  publishEventOK : Bool := true

variable (c : Config)

def decidedState (l : Loop) (t : BusTick) : State := (poll c l t.poll).state

/-- Every bus call the tick makes succeeds. -/
def CallsOK (l : Loop) (t : BusTick) : Prop :=
  t.setStatusOK = true ∧ (decidedState c l t ≠ l.lastReported → t.publishEventOK = true)

/-- The event of a tick that reaches the channel. -/
def eventOf (l : Loop) (t : BusTick) : Option Event :=
  if decidedState c l t ≠ l.lastReported then
    if t.publishEventOK then some ⟨c.profile, decidedState c l t⟩ else none
  else none

def publishedFrom : Loop → List BusTick → List Event
  | _, [] => []
  | l, t :: rest => (eventOf c l t).toList ++ publishedFrom (tick c l t.poll) rest

/-- The outcomes of the `PublishEvent` calls that are made. -/
def outcomesFrom : Loop → List BusTick → List Bool
  | _, [] => []
  | l, t :: rest =>
    (if decidedState c l t ≠ l.lastReported then [t.publishEventOK] else []) ++
      outcomesFrom (tick c l t.poll) rest

def decidedFrom : Loop → List BusTick → List State
  | _, [] => []
  | l, t :: rest => decidedState c l t :: decidedFrom (tick c l t.poll) rest

def NoCallFails : Loop → List BusTick → Prop
  | _, [] => True
  | l, t :: rest => CallsOK c l t ∧ NoCallFails (tick c l t.poll) rest

/-- The events, the outcomes of the calls for them and the decided states of a run of
`runProfile`, oldest first. -/
def published (history : List BusTick) : List Event := publishedFrom c {} history

def publishOutcomes (history : List BusTick) : List Bool := outcomesFrom c {} history

def decidedStates (history : List BusTick) : List State := decidedFrom c {} history

def busLoopAfter (history : List BusTick) : Loop := loopAfter c (history.map BusTick.poll)

/-- The state subscribers know of: unknown until the first event. -/
def lastPublished (events : List Event) : State := (events.getLast?.map Event.state).getD .unknown

/-- The tick of a timed poll, whose two calls share one context. -/
def TimedPoll.busTick (t : TimedPoll) : BusTick :=
  let callOK := t.redisAccepts && decide (t.ContextLive c t.returnedAt)
  { poll := { t.poll with failedAt := t.returnedAt }, setStatusOK := callOK, publishEventOK := callOK }

theorem publishTick_busTick {Raw : Type} (json : Codec Raw) (s : Publisher Raw) (t : TimedPoll) :
    (publishTick json c s t).next.loop = tick c s.loop (t.busTick c).poll ∧
      ((publishTick json c s t).event.bind fun e => if e.2 then some e.1 else none) =
        eventOf c s.loop (t.busTick c) := by
  refine ⟨rfl, ?_⟩
  have hdecided : (pollOnce c s.loop.prev (sample c.profile t.poll) t.returnedAt).state =
      decidedState c s.loop (t.busTick c) := rfl
  simp only [publishTick, eventOf, hdecided]
  by_cases hchange : decidedState c s.loop (t.busTick c) = s.loop.lastReported
  · simp [hchange]
  · simp only [ne_eq, hchange, not_false_eq_true, if_true, Option.bind_some]
    rfl

variable {c}

theorem tick_lastReported (l : Loop) (t : BusTick) :
    (tick c l t.poll).lastReported = decidedState c l t := by
  unfold tick Loop.record decidedState
  simp only
  split
  · rfl
  · next h => exact (not_not.mp h).symm

theorem busLoopAfter_concat (history : List BusTick) (t : BusTick) :
    busLoopAfter c (history ++ [t]) = tick c (busLoopAfter c history) t.poll := by
  simp [busLoopAfter]

theorem publishedFrom_concat (l : Loop) (history : List BusTick) (t : BusTick) :
    publishedFrom c l (history ++ [t]) = publishedFrom c l history ++
      (eventOf c ((history.map BusTick.poll).foldl (tick c) l) t).toList := by
  induction history generalizing l with
  | nil => simp [publishedFrom]
  | cons s rest ih => simp [publishedFrom, ih]

theorem published_concat (history : List BusTick) (t : BusTick) :
    published c (history ++ [t]) =
      published c history ++ (eventOf c (busLoopAfter c history) t).toList :=
  publishedFrom_concat {} history t

theorem outcomesFrom_append (l : Loop) (before after : List BusTick) :
    outcomesFrom c l (before ++ after) = outcomesFrom c l before ++
      outcomesFrom c ((before.map BusTick.poll).foldl (tick c) l) after := by
  induction before generalizing l with
  | nil => rfl
  | cons t rest ih =>
    rw [List.cons_append, outcomesFrom, ih, outcomesFrom, List.append_assoc]
    rfl

theorem publishOutcomes_concat (history : List BusTick) (t : BusTick) :
    publishOutcomes c (history ++ [t]) = publishOutcomes c history ++
      if decidedState c (busLoopAfter c history) t ≠ (busLoopAfter c history).lastReported then
        [t.publishEventOK] else [] := by
  rw [publishOutcomes, outcomesFrom_append, outcomesFrom, outcomesFrom, List.append_nil]
  rfl

theorem lastPublished_concat (events : List Event) (e : Event) :
    lastPublished (events ++ [e]) = e.state := by simp [lastPublished]

theorem decidedState_up_or_down (l : Loop) (t : BusTick) :
    decidedState c l t = .up ∨ decidedState c l t = .down := by
  unfold decidedState poll pollOnce
  cases sample c.profile t.poll with
  | none => exact Or.inr rfl
  | some cur => exact decideHealth_up_or_down l.prev cur c.hostIP c.freshness

/-- After a tick whose calls succeed, subscribers know its state exactly if it
was a change or they knew it before. -/
theorem lastPublished_tick {history : List BusTick} {t : BusTick}
    (h : CallsOK c (busLoopAfter c history) t) :
    lastPublished (published c (history ++ [t])) = decidedState c (busLoopAfter c history) t ↔
      decidedState c (busLoopAfter c history) t ≠ (busLoopAfter c history).lastReported ∨
        lastPublished (published c history) = decidedState c (busLoopAfter c history) t := by
  rw [published_concat, eventOf]
  by_cases hchange : decidedState c (busLoopAfter c history) t = (busLoopAfter c history).lastReported
  · simp [hchange]
  · have hok := h.2 hchange
    simp [hchange, hok, lastPublished_concat]

/-- Some poll decides again what the loop last reported: a failed egress call for
down, and for up a probe through an egress address that was good before. -/
theorem exists_same_state (history : List BusTick) (last : BusTick) :
    ∃ p : Poll, (poll c (busLoopAfter c (history ++ [last])) p).state =
      (busLoopAfter c (history ++ [last])).lastReported := by
  rw [busLoopAfter_concat, tick_lastReported]
  rcases decidedState_up_or_down (busLoopAfter c history) last with hup | hdown
  · obtain ⟨egress, -, hok, -⟩ := (poll_up_iff c _ _).mp hup
    refine ⟨{ startedAt := 1, egress := some egress, probe := .succeeded }, ?_⟩
    rw [hup, poll_up_iff]
    exact ⟨egress, rfl, hok, Or.inr ⟨rfl, Int.one_ne_zero⟩⟩
  · exact ⟨{ startedAt := 0, egress := none }, by rw [hdown]; rfl⟩

/-- Every tick whose calls succeed leaves subscribers with its state exactly when,
before it, they know the state the loop last reported. -/
theorem converges_iff (history : List BusTick) :
    (∀ t, CallsOK c (busLoopAfter c history) t →
      lastPublished (published c (history ++ [t])) = decidedState c (busLoopAfter c history) t) ↔
    lastPublished (published c history) = (busLoopAfter c history).lastReported := by
  constructor
  · intro h
    induction history using List.reverseRecOn with
    | nil => rfl
    | append_singleton history last =>
      obtain ⟨p, hp⟩ := exists_same_state (c := c) history last
      -- that poll makes no `PublishEvent` call, so what subscribers know stays
      have hok : CallsOK c (busLoopAfter c (history ++ [last])) { poll := p } :=
        ⟨rfl, fun hchange => absurd hp hchange⟩
      have hlaw := (lastPublished_tick hok).mp (h { poll := p } hok)
      rw [decidedState, hp] at hlaw
      exact hlaw.resolve_left (not_not.mpr rfl)
  · intro hknown t ht
    rw [lastPublished_tick ht, hknown]
    by_cases hchange : decidedState c (busLoopAfter c history) t =
        (busLoopAfter c history).lastReported
    · exact Or.inr hchange.symm
    · exact Or.inl hchange

/-- Unless the latest `PublishEvent` call has failed, subscribers know what the loop
last reported. -/
theorem known_of_latest {history : List BusTick}
    (h : (publishOutcomes c history).getLast? ≠ some false) :
    lastPublished (published c history) = (busLoopAfter c history).lastReported := by
  induction history using List.reverseRecOn with
  | nil => rfl
  | append_singleton history t ih =>
    rw [publishOutcomes_concat] at h
    rw [busLoopAfter_concat, tick_lastReported, published_concat, eventOf]
    by_cases hchange : decidedState c (busLoopAfter c history) t =
        (busLoopAfter c history).lastReported
    · rw [if_neg (not_not.mpr hchange), List.append_nil] at h
      rw [if_neg (not_not.mpr hchange), Option.toList_none, List.append_nil, ih h, hchange]
    · rw [if_pos hchange, List.getLast?_concat] at h
      have hok : t.publishEventOK = true := by simpa using h
      rw [if_pos hchange, if_pos hok, Option.toList_some, lastPublished_concat]

/-- The first call that fails leaves subscribers with the state before the change. -/
theorem unknown_after_failure {history : List BusTick} (h : false ∈ publishOutcomes c history) :
    ∃ before, before <+: history ∧
      lastPublished (published c before) ≠ (busLoopAfter c before).lastReported := by
  induction history using List.reverseRecOn with
  | nil => cases h
  | append_singleton history t ih =>
    by_cases hearlier : false ∈ publishOutcomes c history
    · obtain ⟨before, hprefix, hlost⟩ := ih hearlier
      exact ⟨before, hprefix.trans (List.prefix_append history [t]), hlost⟩
    · have hknown := known_of_latest fun hlast => hearlier (List.mem_of_getLast? hlast)
      rw [publishOutcomes_concat, List.mem_append, or_iff_right hearlier] at h
      refine ⟨history ++ [t], List.prefix_rfl, ?_⟩
      rw [busLoopAfter_concat, tick_lastReported, published_concat, eventOf]
      split at h
      · next hchange =>
        have hfailed : t.publishEventOK = false := (List.mem_singleton.mp h).symm
        rw [if_pos hchange, hfailed, if_neg Bool.false_ne_true, Option.toList_none,
          List.append_nil, hknown]
        exact hchange.symm
      · cases h

/-- Without failures the events are the changes among the decided states. -/
theorem publishedFrom_destutter (l : Loop) (history : List BusTick) (h : NoCallFails c l history) :
    l.lastReported :: (publishedFrom c l history).map Event.state =
      (decidedFrom c l history).destutter' (· ≠ ·) l.lastReported := by
  induction history generalizing l with
  | nil => rfl
  | cons t rest ih =>
    obtain ⟨hok, hrest⟩ := h
    have hnext := ih (tick c l t.poll) hrest
    rw [tick_lastReported] at hnext
    rw [publishedFrom, decidedFrom]
    by_cases hchange : l.lastReported = decidedState c l t
    · rw [List.destutter'_cons_neg _ (not_not.mpr hchange), hchange, ← hnext, eventOf,
        if_neg (not_not.mpr hchange.symm)]
      rfl
    · have hchange' : decidedState c l t ≠ l.lastReported := fun he => hchange he.symm
      rw [List.destutter'_cons_pos _ hchange, ← hnext, eventOf, if_pos hchange',
        if_pos (hok.2 hchange')]
      rfl

variable (c)

/-- Subscribers converge: after the tick `t` they know the state it decided. -/
def Converged (history : List BusTick) (t : BusTick) : Prop :=
  lastPublished (published c (history ++ [t])) = decidedState c (busLoopAfter c history) t

/-- All along a run, every tick whose calls succeed leaves subscribers with its state
exactly when no `PublishEvent` call of the run fails; `SetStatus` may. At any one point
it is enough that the latest of these calls, if one was made, succeeded. When no call
fails, the events are the decided states with immediate repetitions removed, from
unknown. -/
theorem subscribers_converge_iff (history : List BusTick) :
    ((∀ before, before <+: history → ∀ t, CallsOK c (busLoopAfter c before) t →
        Converged c before t) ↔
      false ∉ publishOutcomes c history) ∧
    ((publishOutcomes c history).getLast? ≠ some false →
      ∀ t, CallsOK c (busLoopAfter c history) t → Converged c history t) ∧
    (NoCallFails c {} history →
      .unknown :: (published c history).map Event.state =
        (.unknown :: decidedStates c history).destutter (· ≠ ·)) := by
  refine ⟨⟨fun h hfailed => ?_, fun h before hprefix => ?_⟩, fun hlatest => ?_, fun h => ?_⟩
  · obtain ⟨before, hprefix, hlost⟩ := unknown_after_failure hfailed
    exact hlost ((converges_iff before).mp (h before hprefix))
  · obtain ⟨after, rfl⟩ := hprefix
    have hbefore : false ∉ publishOutcomes c before := by
      rw [publishOutcomes, outcomesFrom_append, List.mem_append, not_or] at h
      exact h.1
    exact (converges_iff before).mpr
      (known_of_latest fun hlast => hbefore (List.mem_of_getLast? hlast))
  · exact (converges_iff history).mpr (known_of_latest hlatest)
  · rw [List.destutter_cons']
    exact publishedFrom_destutter {} history h

/-- A tick that finds its tunnel up through the probe. -/
def upTick (publishEventOK : Bool) : BusTick :=
  { poll := { startedAt := 1000 * second, egress := some (lit "203.0.113.7"), probe := .succeeded }
    publishEventOK }

/-- The event of the first tick is lost; the second changes nothing and publishes
nothing, so subscribers never learn that the tunnel is up. -/
theorem subscribers_not_converged :
    ¬ ∀ (c : Config) (history : List BusTick) (t : BusTick),
      CallsOK c (busLoopAfter c history) t → Converged c history t := by
  intro h
  have hx := h { profile := lit "eu" } [upTick false] (upTick true) ⟨rfl, fun _ => rfl⟩
  revert hx
  unfold Converged
  decide

end HelixProxy.Healthd
