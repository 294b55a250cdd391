import HelixProxy.ControlPlane
import HelixProxy.HealthdPublish

/-!
# Each process on its own

When the steps of one process follow each other without others in between, the
system does what the process does by itself: a tick of healthd is `publishTick`,
a run of the compiler is `Compiler.run`, and a request gets the reply that
`Decider.ofRedis` gives on one state of Redis.
-/

namespace HelixProxy.ControlPlane

open Vpn Bus Healthd AclHelper
set_option autoImplicit false

variable {Raw : Type} (json : Codec Raw) (d : Deployment)

/-- A tick of loop `i` that takes `elapsed` to sample. -/
def tickActions (i elapsed : Nat) (p : Poll) (stored : Bool) : List Action :=
  [.beginTick i, .wait elapsed, .sample i p.egress p.wg p.probe, .setStatus i stored]

theorem tick_uninterrupted (s : State Raw) {i : Nat} (hidle : (s.loops i).phase = .idle)
    (elapsed : Nat) (t : TimedPoll) (hstart : t.poll.startedAt = s.now)
    (hfail : t.poll.failedAt = s.now + elapsed) (hreturn : t.returnedAt = s.now + elapsed) :
    let o := publishTick json (d.healthd i) ⟨(s.loops i).vars, s.redis⟩ t
    let s' := (tickActions i elapsed t.poll o.statusStored).foldl (step json d) s
    s'.redis = o.next.redis ∧ (s'.loops i).vars = o.next.loop := by
  obtain ⟨⟨startedAt, egress, wg, probe, failedAt⟩, beganAt, returnedAt, cancelledAt, accepts⟩ := t
  simp only at hstart hfail hreturn
  subst hstart hfail hreturn
  simp only [tickActions, List.foldl_cons, List.foldl_nil, step, hidle, State.setLoop,
    Function.update_self]
  cases hok : (publishTick json (d.healthd i) ⟨(s.loops i).vars, s.redis⟩
      ⟨⟨s.now, egress, wg, probe, s.now + elapsed⟩, beganAt, s.now + elapsed, cancelledAt,
        accepts⟩).statusStored with
  | false =>
    simp only [publishTick] at hok
    simp [publishTick, hok, ProfileLoop.finish, poll]
  | true =>
    simp only [publishTick] at hok
    simp [publishTick, hok, ProfileLoop.finish, poll, State.store]

/-- The seeding steps of a run with `pending` routes, of which `i` came before. -/
def seedActions (j : Nat) (accepts : Nat → Bool) (i : Nat) (pending : List Route) : List Action :=
  (List.range' i pending.length).map fun n => .setRoute j (accepts n)

theorem setRoute_ended (s : State Raw) {j : Nat} (h : s.compilers j = none)
    (accepts : Nat → Bool) (ns : List Nat) :
    (ns.map fun n => Action.setRoute j (accepts n)).foldl (step json d) s = s := by
  induction ns with
  | nil => rfl
  | cons n ns ih =>
    have hstep : step json d s (.setRoute j (accepts n)) = s := by simp [step, h]
    rw [List.map_cons, List.foldl_cons, hstep, ih]

theorem seed_uninterrupted (s : State Raw) (j : Nat) (inv : Compiler.Invocation)
    (accepts : Nat → Bool) (i : Nat) (pending : List Route)
    (h : s.compilers j = some ⟨inv, pending⟩) :
    ((seedActions j accepts i pending).foldl (step json d) s).redis =
      (Compiler.seed accepts i pending).1.foldl
        (fun r route => Expiring.put r (routeWrite json s.now route)) s.redis := by
  induction pending generalizing s i with
  | nil => rfl
  | cons r rest ih =>
    rw [seedActions, List.length_cons, List.range'_succ, List.map_cons, List.foldl_cons,
      Compiler.seed]
    cases ha : accepts i with
    | false =>
      have hstep : step json d s (.setRoute j false) = s.setSeeder j none := by simp [step, h]
      -- the run has ended, so its remaining steps find nothing to do
      have hnone : (s.setSeeder j none).compilers j = none := by simp [State.setSeeder]
      rw [hstep, setRoute_ended json d _ hnone]
      rfl
    | true =>
      have hstep : step json d s (.setRoute j true) =
          (s.setSeeder j (some ⟨inv, rest⟩)).store (routeWrite json s.now r)
            (.route s.now inv r) := by simp [step, h]
      rw [hstep]
      exact ih _ (i + 1) (by simp [State.setSeeder, State.store])

theorem compile_uninterrupted (s : State Raw) (j : Nat) (inv : Compiler.Invocation)
    (htime : inv.time = s.now) :
    let accepts := (inv.redisAddr.map Compiler.Seeding.accepts).getD fun _ => true
    ((Action.compile j inv :: seedActions j accepts 0 (toSeed inv)).foldl (step json d) s).redis =
      (Compiler.run json s.redis inv).1 := by
  intro accepts
  have hseed := seed_uninterrupted json d (s.setSeeder j (some ⟨inv, toSeed inv⟩)) j inv accepts 0
    (toSeed inv) (by simp [State.setSeeder])
  have hrun : (Compiler.seed accepts 0 (toSeed inv)).1 = inv.seeded.1 := by
    unfold Compiler.Invocation.seeded toSeed
    cases hp : inv.prepare with
    | error e => rfl
    | ok out =>
      cases out with
      | none => rfl
      | some c =>
        cases ha : inv.redisAddr with
        | none => rfl
        | some redis =>
          have hacc : accepts = redis.accepts := by simp [accepts, ha]
          cases ho : redis.opens with
          | false => simp [ho, Compiler.seed]
          | true =>
            simp only [hacc, ho, if_true, Bool.not_true, Bool.false_eq_true, if_false]
            rcases Compiler.seed redis.accepts 0 c.routes with ⟨written, failed⟩
            cases failed <;> rfl
  rw [List.foldl_cons]
  refine hseed.trans ?_
  rw [hrun, Compiler.run, htime]
  rfl

theorem request_uninterrupted (s : State Raw) {k : Nat} (hidle : s.helpers k = none)
    (line : Bytes) (r1 r2 : Bool) :
    (([Action.getRoute k line r1, .getStatus k r2].foldl (step json d) s).answers.head?).map
        Answer.text =
      some (reply (Decider.ofRedis json (d.maxAge k) (s.redis, s.now, r1) (s.redis, s.now, r2))
        line) := by
  simp only [List.foldl_cons, List.foldl_nil, step, hidle, State.setLookup, Function.update_self,
    List.head?_cons, Option.map_some, Option.some.injEq]
  have hdec : ((Lookup.mk line s.now (Bus.getRoute json s.redis s.now r1 (parseLine line).host)
      s.log).decider json (d.maxAge k) s r2).decideWithTimeout (parseLine line).host =
      (Decider.ofRedis json (d.maxAge k) (s.redis, s.now, r1)
        (s.redis, s.now, r2)).decideWithTimeout (parseLine line).host := by
    simp [Decider.decideWithTimeout, Decider.decide, Lookup.decider, Decider.ofRedis]
  simp only [reply]
  exact congrArg (fun v : Bool × Bytes => formatReply (parseLine line).channel v.1 v.2) hdec

end HelixProxy.ControlPlane
