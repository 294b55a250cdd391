import Mathlib.Algebra.Group.Int.Defs
import Mathlib.Data.List.Basic

/-!
# A timed circuit breaker and its reference automaton

The three-state breaker of the gobreaker package (version 2): it counts per
generation, trips by a predicate on the counts, and leaves the open state only
when it is looked at after its timeout. `Reference` is the same behaviour in two
states and without bookkeeping; `Simulates` relates them at an instant.
-/

namespace HelixProxy.CircuitBreaker

set_option autoImplicit false

inductive State where
  | closed
  | halfOpen
  | opened
  deriving DecidableEq, Repr

structure Counts where
  requests : UInt32 := 0
  totalSuccesses : UInt32 := 0
  totalFailures : UInt32 := 0
  consecutiveSuccesses : UInt32 := 0
  consecutiveFailures : UInt32 := 0
  deriving DecidableEq, Repr

def Counts.onRequest (c : Counts) : Counts := { c with requests := c.requests + 1 }

def Counts.onSuccess (c : Counts) : Counts :=
  { c with
    totalSuccesses := c.totalSuccesses + 1
    consecutiveSuccesses := c.consecutiveSuccesses + 1
    consecutiveFailures := 0 }

def Counts.onFailure (c : Counts) : Counts :=
  { c with
    totalFailures := c.totalFailures + 1
    consecutiveFailures := c.consecutiveFailures + 1
    consecutiveSuccesses := 0 }

structure Settings where
  maxRequests : UInt32
  interval : Int
  timeout : Int
  readyToTrip : Counts → Bool

/-- The instant 0 is the zero time: no expiry. -/
structure Breaker where
  state : State := .closed
  generation : UInt64 := 0
  counts : Counts := {}
  expiry : Int := 0
  deriving DecidableEq, Repr

section Machine

variable (st : Settings)

def toNewGeneration (cb : Breaker) (now : Int) : Breaker :=
  { cb with
    generation := cb.generation + 1
    counts := {}
    expiry := match cb.state with
      | .closed => if st.interval = 0 then 0 else now + st.interval
      | .opened => now + st.timeout
      | .halfOpen => 0 }

def newCircuitBreaker (now : Int) : Breaker := toNewGeneration st {} now

def setState (cb : Breaker) (state : State) (now : Int) : Breaker :=
  if cb.state = state then cb else toNewGeneration st { cb with state } now

/-- Looking at the state can itself change it. -/
def currentState (cb : Breaker) (now : Int) : Breaker :=
  match cb.state with
  | .closed => if cb.expiry ≠ 0 ∧ cb.expiry < now then toNewGeneration st cb now else cb
  | .opened => if cb.expiry < now then setState st cb .halfOpen now else cb
  | .halfOpen => cb

/-- `none` is a request that is refused without being run. -/
def beforeRequest (cb : Breaker) (now : Int) : Breaker × Option UInt64 :=
  let cb := currentState st cb now
  if cb.state = .opened then (cb, none)
  else if cb.state = .halfOpen ∧ cb.counts.requests ≥ st.maxRequests then (cb, none)
  else ({ cb with counts := cb.counts.onRequest }, some cb.generation)

def onSuccess (cb : Breaker) (now : Int) : Breaker :=
  match cb.state with
  | .closed => { cb with counts := cb.counts.onSuccess }
  | .halfOpen =>
    let cb := { cb with counts := cb.counts.onSuccess }
    if cb.counts.consecutiveSuccesses ≥ st.maxRequests then setState st cb .closed now else cb
  | .opened => cb

def onFailure (cb : Breaker) (now : Int) : Breaker :=
  match cb.state with
  | .closed =>
    let cb := { cb with counts := cb.counts.onFailure }
    if st.readyToTrip cb.counts then setState st cb .opened now else cb
  | .halfOpen => setState st cb .opened now
  | .opened => cb

def afterRequest (cb : Breaker) (before : UInt64) (success : Bool) (now : Int) : Breaker :=
  let cb := currentState st cb now
  if cb.generation ≠ before then cb
  else if success then onSuccess st cb now else onFailure st cb now

/-- A request that runs from `began` to `ended`. -/
def execute (cb : Breaker) (began ended : Int) (success : Bool) : Breaker :=
  match beforeRequest st cb began with
  | (cb, none) => cb
  | (cb, some generation) => afterRequest st cb generation success ended

end Machine

/-- Closed with the failures since the last success, or tripped at an instant. -/
inductive Reference where
  | closed (failures : Nat)
  | tripped (since : Int)
  deriving DecidableEq, Repr

structure Outcome where
  began : Int
  ended : Int
  success : Bool
  deriving DecidableEq, Repr

def Reference.record (threshold : Nat) (cooldown : Int) (r : Reference) (o : Outcome) : Reference :=
  match r with
  | .closed failures =>
    if o.success then .closed 0
    else if failures + 1 ≥ threshold then .tripped o.ended else .closed (failures + 1)
  | .tripped since =>
    if o.began ≤ since + cooldown then .tripped since
    else if o.success then .closed 0 else .tripped o.ended

def Reference.isClosed : Reference → Bool
  | .closed _ => true
  | .tripped _ => false

/-- Leaving the tripped state takes a successful outcome after the cooldown. -/
theorem Reference.recovers {threshold : Nat} {cooldown : Int} (hc : 0 ≤ cooldown)
    {outcomes : List Outcome} (ho : ∀ o ∈ outcomes, o.began ≤ o.ended) {since : Int}
    (h : (outcomes.foldl (record threshold cooldown) (.tripped since)).isClosed = true) :
    ∃ o ∈ outcomes, o.success = true ∧ since + cooldown < o.began := by
  induction outcomes generalizing since with
  | nil => simp [isClosed] at h
  | cons o rest ih =>
    have hrest : ∀ x ∈ rest, x.began ≤ x.ended := fun x hx => ho x (List.mem_cons_of_mem o hx)
    rw [List.foldl_cons, record] at h
    by_cases hb : o.began ≤ since + cooldown
    · rw [if_pos hb] at h
      obtain ⟨x, hx, hs, hlt⟩ := ih hrest h
      exact ⟨x, List.mem_cons_of_mem o hx, hs, hlt⟩
    · rw [if_neg hb] at h
      cases hs : o.success with
      | true => exact ⟨o, List.mem_cons_self, hs, by omega⟩
      | false =>
        -- the failed trial restarts the cooldown, which only moves it later
        rw [hs] at h
        obtain ⟨x, hx, hxs, hlt⟩ := ih hrest h
        have hle := ho o List.mem_cons_self
        exact ⟨x, List.mem_cons_of_mem o hx, hxs, by omega⟩

section Simulation

/-- Settings that trip after `threshold` failures in a row and close after one success. -/
structure Consecutive (st : Settings) (threshold : UInt32) : Prop where
  maxRequests : st.maxRequests = 1
  interval : st.interval = 0
  readyToTrip : ∀ c, st.readyToTrip c = decide (c.consecutiveFailures ≥ threshold)
  positive : 0 < threshold.toNat

/-- The breaker stands for the reference state at the instant `now`. A half-open
breaker stands for a tripped one whose cooldown is over. -/
def Simulates (st : Settings) (threshold : UInt32) (cb : Breaker) (r : Reference) (now : Int) : Prop :=
  match cb.state, r with
  | .closed, .closed failures =>
    cb.expiry = 0 ∧ cb.counts.consecutiveFailures.toNat = failures ∧ failures < threshold.toNat
  | .opened, .tripped since => cb.expiry = since + st.timeout
  | .halfOpen, .tripped since => cb.counts = {} ∧ since + st.timeout < now
  | _, _ => False

variable {st : Settings} {threshold : UInt32} {cb : Breaker} {r : Reference} {now : Int}

theorem Simulates.isClosed (h : Simulates st threshold cb r now) :
    r.isClosed = decide (cb.state = .closed) := by
  unfold Simulates at h
  cases hs : cb.state <;> cases r <;> simp_all [Reference.isClosed]

theorem simulates_new (hst : Consecutive st threshold) (now now' : Int) :
    Simulates st threshold (newCircuitBreaker st now) (.closed 0) now' := by
  simp [Simulates, newCircuitBreaker, toNewGeneration, hst.interval, hst.positive]

theorem Simulates.later (h : Simulates st threshold cb r now) {t : Int} (ht : now ≤ t) :
    Simulates st threshold cb r t := by
  unfold Simulates at h ⊢
  cases hs : cb.state <;> cases r <;> simp only [hs] at h ⊢
  case closed.closed => exact h
  case opened.tripped => exact h
  case halfOpen.tripped => exact ⟨h.1, by omega⟩

/-- Looking at the state keeps the relation, and shows open only during the cooldown. -/
theorem Simulates.currentState (h : Simulates st threshold cb r now) {t : Int} (ht : now ≤ t) :
    Simulates st threshold (currentState st cb t) r t ∧ ∀ since, r = .tripped since →
      (CircuitBreaker.currentState st cb t).state = .opened → t ≤ since + st.timeout := by
  unfold Simulates at h ⊢
  unfold CircuitBreaker.currentState
  cases hs : cb.state with
  | closed =>
    cases r with
    | closed failures =>
      simp only [hs] at h
      simpa [h.1, hs] using h.2
    | tripped since => simp [hs] at h
  | opened =>
    cases r with
    | closed failures => simp [hs] at h
    | tripped since =>
      simp only [hs] at h
      by_cases hexp : cb.expiry < t
      · have hlt : since + st.timeout < t := h ▸ hexp
        simp [hexp, setState, hs, toNewGeneration, hlt]
      · simp only [hexp, if_false, hs]
        refine ⟨h, fun since' hsince _ => ?_⟩
        cases hsince
        omega
  | halfOpen =>
    cases r with
    | closed failures => simp [hs] at h
    | tripped since =>
      simp only [hs] at h ⊢
      exact ⟨⟨h.1, by omega⟩, by simp⟩

theorem currentState_of_closed (hs : cb.state = .closed) (he : cb.expiry = 0) (t : Int) :
    currentState st cb t = cb := by simp [currentState, hs, he]

theorem currentState_of_halfOpen (hs : cb.state = .halfOpen) (t : Int) :
    currentState st cb t = cb := by simp [currentState, hs]

section Run

variable (hst : Consecutive st threshold) {ended : Int} {success : Bool}
include hst

/-- A request that ran in the closed state. -/
theorem simulates_afterRequest_closed {failures : Nat} (hs : cb.state = .closed)
    (he : cb.expiry = 0) (hf : cb.counts.consecutiveFailures.toNat = failures)
    (hlt : failures < threshold.toNat) (since : Int) :
    Simulates st threshold (afterRequest st cb cb.generation success ended)
      ((Reference.closed failures).record threshold.toNat st.timeout ⟨since, ended, success⟩) ended := by
  have hcur : currentState st cb ended = cb := currentState_of_closed hs he ended
  simp only [afterRequest, hcur, ne_eq, not_true_eq_false, if_false, Reference.record]
  cases success with
  | true => simp [onSuccess, hs, Simulates, he, Counts.onSuccess, hst.positive]
  | false =>
    -- the count stays below the threshold, so it does not wrap
    have hnext : (cb.counts.consecutiveFailures + 1).toNat = failures + 1 := by
      have hbound := threshold.toNat_lt
      rw [UInt32.toNat_add, hf]
      exact Nat.mod_eq_of_lt (by simp; omega)
    simp only [onFailure, hs, hst.readyToTrip, Counts.onFailure, decide_eq_true_eq, ge_iff_le,
      UInt32.le_iff_toNat_le, hnext, Bool.false_eq_true, if_false]
    by_cases htrip : threshold.toNat ≤ failures + 1
    · simp [htrip, setState, toNewGeneration, Simulates]
    · rw [if_neg htrip, if_neg htrip]
      exact ⟨he, hnext, by omega⟩

/-- The one request that runs in the half-open state. -/
theorem simulates_afterRequest_halfOpen (hs : cb.state = .halfOpen)
    (hc : cb.counts = Counts.onRequest {}) :
    Simulates st threshold (afterRequest st cb cb.generation success ended)
      (if success then .closed 0 else .tripped ended) ended := by
  have hcur : currentState st cb ended = cb := currentState_of_halfOpen hs ended
  simp only [afterRequest, hcur, ne_eq, not_true_eq_false, if_false]
  cases success with
  | true =>
    have hone : cb.counts.onSuccess.consecutiveSuccesses ≥ st.maxRequests := by
      rw [hc, hst.maxRequests]
      decide
    simp [onSuccess, hs, hone, setState, toNewGeneration, Simulates, hst.interval, hst.positive]
  | false => simp [onFailure, hs, setState, toNewGeneration, Simulates]

/-- A request moves the breaker as the reference automaton moves. -/
theorem Simulates.execute (h : Simulates st threshold cb r now) {began : Int} (hb : now ≤ began)
    (ended : Int) (success : Bool) :
    Simulates st threshold (execute st cb began ended success)
      (r.record threshold.toNat st.timeout ⟨began, ended, success⟩) ended := by
  obtain ⟨hsim, hopen⟩ := h.currentState hb
  rw [CircuitBreaker.execute, beforeRequest]
  generalize CircuitBreaker.currentState st cb began = cur at hsim hopen
  unfold Simulates at hsim
  cases hs : cur.state with
  | closed =>
    cases r with
    | tripped since => simp [hs] at hsim
    | closed failures =>
      simp only [hs] at hsim
      obtain ⟨he, hf, hlt⟩ := hsim
      simp only [reduceCtorEq, if_false, false_and]
      refine simulates_afterRequest_closed hst ?_ ?_ ?_ hlt began
      · rfl
      · exact he
      · exact hf
  | opened =>
    cases r with
    | closed failures => simp [hs] at hsim
    | tripped since =>
      have hle := hopen since rfl hs
      simp only [hs] at hsim
      simp [hs, Reference.record, hle, Simulates, hsim]
  | halfOpen =>
    cases r with
    | closed failures => simp [hs] at hsim
    | tripped since =>
      simp only [hs] at hsim
      obtain ⟨hc, hlt⟩ := hsim
      have hfree : ¬ cur.counts.requests ≥ st.maxRequests := by
        rw [hc, hst.maxRequests]
        decide
      have hover : ¬ began ≤ since + st.timeout := by omega
      simp only [reduceCtorEq, if_false, hfree, and_false, Reference.record, hover]
      refine simulates_afterRequest_halfOpen hst ?_ ?_
      · rfl
      · exact congrArg Counts.onRequest hc

end Run

end Simulation

end HelixProxy.CircuitBreaker
