import HelixProxy.GoText
import HelixProxy.Library.CircuitBreaker
import HelixProxy.Library.LazyFamily

/-!
# The registry of tunnel breakers

`internal/breaker/tunnelbreaker.go`: one circuit breaker per tunnel name, made on
first sight and fed with health-probe outcomes. A call carries the instants at
which the breaker reads the clock.
-/

namespace HelixProxy.Breaker

open CircuitBreaker
set_option autoImplicit false

def defaultFailThreshold : UInt32 := 3
def defaultCooldown : Int := 30 * 1000000000

structure Options where
  failThreshold : UInt32 := 0
  cooldown : Int := 0

def Options.thresholdOrDefault (o : Options) : UInt32 :=
  if o.failThreshold = 0 then defaultFailThreshold else o.failThreshold

def Options.cooldownOrDefault (o : Options) : Int :=
  if o.cooldown ≤ 0 then defaultCooldown else o.cooldown

/-- What `NewBreaker` hands to gobreaker. -/
def Options.settings (o : Options) : Settings where
  maxRequests := 1
  interval := 0
  timeout := o.cooldownOrDefault
  readyToTrip c := c.consecutiveFailures ≥ o.thresholdOrDefault

def newBreaker (o : Options) (now : Int) : CircuitBreaker.Breaker := newCircuitBreaker o.settings now

inductive Call where
  | record (success : Bool) (began ended : Int)
  | closed (now : Int)
  deriving DecidableEq, Repr

/-- The clock readings of a call, in order. -/
def Call.times : Call → List Int
  | .record _ began ended => [began, ended]
  | .closed now => [now]

def Call.began : Call → Int
  | .record _ began _ => began
  | .closed now => now

structure Registry where
  opts : Options
  breakers : Bytes → Option CircuitBreaker.Breaker

def newRegistry (opts : Options) : Registry := ⟨opts, fun _ => none⟩

def Registry.get (r : Registry) (tunnel : Bytes) (now : Int) : Registry × CircuitBreaker.Breaker :=
  match r.breakers tunnel with
  | some b => (r, b)
  | none =>
    let b := newBreaker r.opts now
    ({ r with breakers := Function.update r.breakers tunnel (some b) }, b)

def Registry.set (r : Registry) (tunnel : Bytes) (b : CircuitBreaker.Breaker) : Registry :=
  { r with breakers := Function.update r.breakers tunnel (some b) }

def Registry.record (r : Registry) (tunnel : Bytes) (success : Bool) (began ended : Int) : Registry :=
  let (r, b) := r.get tunnel began
  r.set tunnel (execute r.opts.settings b began ended success)

/-- `Closed`, with the registry it leaves: asking for the state may change it. -/
def Registry.closed (r : Registry) (tunnel : Bytes) (now : Int) : Registry × Bool :=
  let (r, b) := r.get tunnel now
  let b := currentState r.opts.settings b now
  (r.set tunnel b, b.state = .closed)

def Registry.call (r : Registry) (c : Bytes × Call) : Registry :=
  match c.2 with
  | .record success began ended => r.record c.1 success began ended
  | .closed now => (r.closed c.1 now).1

def registryAfter (opts : Options) (calls : List (Bytes × Call)) : Registry :=
  calls.foldl Registry.call (newRegistry opts)

def Call.outcome : Call → Option Outcome
  | .record success began ended => some ⟨began, ended, success⟩
  | .closed _ => none

/-- The probe outcomes recorded for a tunnel. -/
def outcomes (tunnel : Bytes) (calls : List (Bytes × Call)) : List Outcome :=
  (LazyFamily.own tunnel calls).filterMap Call.outcome

/-- The reference automaton fed with the tunnel's own records. -/
def reference (opts : Options) (recorded : List Outcome) : Reference :=
  recorded.foldl (Reference.record opts.thresholdOrDefault.toNat opts.cooldownOrDefault) (.closed 0)

def times (calls : List (Bytes × Call)) : List Int := calls.flatMap fun c => c.2.times

/-- The clock never goes back over the calls and up to `now`. -/
def InOrder (calls : List (Bytes × Call)) (now : Int) : Prop :=
  (times calls ++ [now]).Pairwise (· ≤ ·)

instance (calls : List (Bytes × Call)) (now : Int) : Decidable (InOrder calls now) :=
  inferInstanceAs (Decidable (List.Pairwise _ _))

theorem settings_consecutive (o : Options) : Consecutive o.settings o.thresholdOrDefault where
  maxRequests := rfl
  interval := rfl
  readyToTrip _ := rfl
  positive := by
    unfold Options.thresholdOrDefault
    split
    · decide
    · next h => exact Nat.pos_of_ne_zero fun h0 => h (UInt32.toNat_inj.mp h0)

theorem cooldownOrDefault_pos (o : Options) : 0 < o.cooldownOrDefault := by
  unfold Options.cooldownOrDefault defaultCooldown
  split <;> omega

section Family

/-- What a call does to the breaker it reaches. -/
def stepBreaker (opts : Options) (b : CircuitBreaker.Breaker) : Call → CircuitBreaker.Breaker
  | .record success began ended => execute opts.settings b began ended success
  | .closed now => currentState opts.settings b now

def create (opts : Options) (c : Call) : CircuitBreaker.Breaker := newBreaker opts c.began

theorem Registry.get_set (r : Registry) (tunnel : Bytes) (now : Int) (b : CircuitBreaker.Breaker) :
    (r.get tunnel now).1.set tunnel b = r.set tunnel b := by
  unfold Registry.get
  cases r.breakers tunnel <;> simp [Registry.set]

theorem Registry.get_opts (r : Registry) (tunnel : Bytes) (now : Int) :
    (r.get tunnel now).1.opts = r.opts := by
  unfold Registry.get
  cases r.breakers tunnel <;> rfl

theorem Registry.get_eq (r : Registry) (tunnel : Bytes) (c : Call) :
    (r.get tunnel c.began).2 = LazyFamily.resolve (create r.opts) (r.breakers tunnel) c := by
  unfold Registry.get LazyFamily.resolve
  cases r.breakers tunnel <;> rfl

theorem Registry.call_eq (r : Registry) (c : Bytes × Call) :
    r.call c = { r with
      breakers := LazyFamily.call (create r.opts) (stepBreaker r.opts) r.breakers c } := by
  obtain ⟨tunnel, c⟩ := c
  have hget := r.get_eq tunnel c
  cases c with
  | record success began ended =>
    simp only [Call.began] at hget
    simp only [Registry.call, Registry.record, Registry.get_set, Registry.get_opts, hget]
    rfl
  | closed now =>
    simp only [Call.began] at hget
    simp only [Registry.call, Registry.closed, Registry.get_set, Registry.get_opts, hget]
    rfl

/-- The registry is a family of breakers made on first use. -/
theorem registryAfter_eq (opts : Options) (calls : List (Bytes × Call)) :
    registryAfter opts calls =
      ⟨opts, LazyFamily.run (create opts) (stepBreaker opts) calls⟩ := by
  induction calls using List.reverseRecOn with
  | nil => rfl
  | append_singleton calls c ih =>
    rw [LazyFamily.run_concat, registryAfter, List.foldl_append, List.foldl_cons, List.foldl_nil,
      ← registryAfter, ih, Registry.call_eq]

end Family

/-- One breaker alone: after calls whose times are in order, the breaker the next
call finds stands for the reference automaton at any later instant. -/
theorem solo_simulates (opts : Options) (es : List Call)
    (hes : (es.flatMap Call.times).Pairwise (· ≤ ·)) (next : Call) {t : Int}
    (ht : ∀ x ∈ es.flatMap Call.times, x ≤ t) :
    Simulates opts.settings opts.thresholdOrDefault
      (LazyFamily.resolve (create opts) (LazyFamily.solo (create opts) (stepBreaker opts) es) next)
      (reference opts (es.filterMap Call.outcome)) t := by
  have hst := settings_consecutive opts
  induction es using List.reverseRecOn generalizing next t with
  | nil => exact simulates_new hst _ _
  | append_singleton es c ih =>
    rw [List.flatMap_append, List.pairwise_append] at hes
    have hle : ∀ x ∈ es.flatMap Call.times, x ≤ c.began := by
      intro x hx
      refine hes.2.2 x hx c.began ?_
      cases c <;> simp [Call.times, Call.began]
    have hbefore := ih hes.1 c hle
    rw [LazyFamily.solo_concat, LazyFamily.resolve, Option.getD_some]
    cases c with
    | record success began ended =>
      have hended : ended ≤ t := ht ended (by simp [Call.times])
      have hafter := (hbefore.execute hst (Int.le_refl began) ended success).later hended
      rw [List.filterMap_append, reference, List.foldl_append, ← reference]
      exact hafter
    | closed now =>
      have hnow : now ≤ t := ht now (by simp [Call.times])
      have hafter := (hbefore.currentState (Int.le_refl now)).1.later hnow
      rw [List.filterMap_append, reference, List.foldl_append, ← reference]
      exact hafter

theorem own_times_sublist (tunnel : Bytes) (calls : List (Bytes × Call)) :
    List.Sublist ((LazyFamily.own tunnel calls).flatMap Call.times) (times calls) := by
  induction calls with
  | nil => exact List.Sublist.refl _
  | cons c rest ih =>
    by_cases h : c.1 = tunnel
    · simpa [LazyFamily.own, times, h] using ih
    · simpa [LazyFamily.own, times, h] using ih.trans (List.sublist_append_right _ _)

theorem closed_eq (opts : Options) {calls : List (Bytes × Call)} (tunnel : Bytes) {now : Int}
    (h : InOrder calls now) :
    ((registryAfter opts calls).closed tunnel now).2 =
      (reference opts (outcomes tunnel calls)).isClosed := by
  obtain ⟨hsorted, -, hnow⟩ := List.pairwise_append.mp h
  have hsub := own_times_sublist tunnel calls
  have hsim := solo_simulates opts (LazyFamily.own tunnel calls) (hsorted.sublist hsub)
    (.closed now) fun x hx => hnow x (hsub.subset hx) now List.mem_cons_self
  have hget := (registryAfter opts calls).get_eq tunnel (.closed now)
  simp only [registryAfter_eq, LazyFamily.run_eq_solo, Call.began] at hget
  have hclosed := (hsim.currentState (Int.le_refl now)).1.isClosed
  rw [outcomes, hclosed, Registry.closed, registryAfter_eq]
  simp only [hget, Registry.get_opts]

theorem outcomes_append (tunnel : Bytes) (earlier later : List (Bytes × Call)) :
    outcomes tunnel (earlier ++ later) = outcomes tunnel earlier ++ outcomes tunnel later := by
  simp [outcomes, LazyFamily.own]

theorem outcomes_ordered {calls : List (Bytes × Call)} (tunnel : Bytes)
    (h : (times calls).Pairwise (· ≤ ·)) : ∀ o ∈ outcomes tunnel calls, o.began ≤ o.ended := by
  intro o ho
  obtain ⟨c, hc, hout⟩ := List.mem_filterMap.mp ho
  obtain ⟨success, began, ended⟩ | now := c
  · obtain rfl := Option.some.inj hout
    have hpair : [began, ended].Pairwise (· ≤ ·) :=
      (h.sublist (own_times_sublist tunnel calls)).sublist (List.sublist_flatten_of_mem
        (List.mem_map.mpr ⟨_, hc, rfl⟩))
    simpa using hpair
  · cases hout

/-- Over every sequence of calls at non-decreasing times, `Closed` answers for a
tunnel as the reference automaton fed with that tunnel's own records. So two
sequences with the same records for the tunnel give the same answer, and a
tripped tunnel is closed again only by a successful record after its cooldown. -/
theorem closed_eq_reference (opts : Options) (calls : List (Bytes × Call)) (tunnel : Bytes)
    (now : Int) (h : InOrder calls now) :
    ((registryAfter opts calls).closed tunnel now).2 =
        (reference opts (outcomes tunnel calls)).isClosed ∧
      (∀ others, InOrder others now → outcomes tunnel others = outcomes tunnel calls →
        ((registryAfter opts others).closed tunnel now).2 =
          ((registryAfter opts calls).closed tunnel now).2) ∧
      ∀ earlier later since, calls = earlier ++ later →
        reference opts (outcomes tunnel earlier) = .tripped since →
        ((registryAfter opts calls).closed tunnel now).2 = true →
        ∃ o ∈ outcomes tunnel later, o.success = true ∧ since + opts.cooldownOrDefault < o.began := by
  refine ⟨closed_eq opts tunnel h, ?_, ?_⟩
  · intro others ho hsame
    rw [closed_eq opts tunnel ho, closed_eq opts tunnel h, hsame]
  · rintro earlier later since rfl htripped hclosed
    rw [closed_eq opts tunnel h, outcomes_append, reference, List.foldl_append, ← reference,
      htripped] at hclosed
    refine Reference.recovers (Int.le_of_lt (cooldownOrDefault_pos opts)) ?_ hclosed
    have hsorted := (List.pairwise_append.mp h).1
    rw [times, List.flatMap_append] at hsorted
    exact outcomes_ordered tunnel (List.pairwise_append.mp hsorted).2.1

/-- A tunnel that trips at 1 and, asked about in between, succeeds at 20. -/
def recovery : List (Bytes × Call) :=
  [(lit "eu", .record false 1 1), (lit "us", .record false 2 2), (lit "eu", .closed 12),
   (lit "eu", .record true 20 21)]

theorem closed_eq_reference_recovery :
    InOrder recovery 30 ∧
      ((registryAfter ⟨1, 10⟩ recovery).closed (lit "eu") 30).2 = true ∧
      ((registryAfter ⟨1, 10⟩ recovery).closed (lit "us") 30).2 = false := by
  have horder : InOrder recovery 30 := by decide
  refine ⟨horder, ?_, ?_⟩
  · rw [(closed_eq_reference ⟨1, 10⟩ recovery (lit "eu") 30 horder).1]
    decide
  · rw [(closed_eq_reference ⟨1, 10⟩ recovery (lit "us") 30 horder).1]
    decide

end HelixProxy.Breaker
