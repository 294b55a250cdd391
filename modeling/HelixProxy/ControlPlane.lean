import HelixProxy.AclHelper
import HelixProxy.Compiler
import HelixProxy.Healthd

/-!
# The control plane as one system

The loops of healthd, the runs of the compiler and the helpers share one Redis
and take their steps in any order. Every call to Redis is a step of its own and
may fail; the clock moves only forward, and Redis may evict an expired key at
any moment. The state also keeps the history of the writes that reached Redis,
which no step reads.
-/

namespace HelixProxy.ControlPlane

open Vpn Bus Healthd AclHelper
set_option autoImplicit false

/-- The configured processes: a config for each loop of healthd, a freshness
window for each helper. Each ttl is positive and fits a `time.Duration`. -/
structure Deployment where
  healthd : Nat → Config
  maxAge : Nat → Int
  ttl_pos : ∀ i, 1 ≤ (healthd i).ttlSeconds
  ttl_fits : ∀ i, (healthd i).ttlSeconds * second ≤ Strconv.maxInt64

/-- A successful `SetStatus` with the poll it publishes and the earlier polls
of its loop, or a successful `SetRoute` with the run of the compiler it is part of. -/
inductive Entry where
  | status (time : Int) (loop : Nat) (history : List Poll) (poll : Poll)
  | route (time : Int) (run : Compiler.Invocation) (route : Route)

inductive Phase where
  | idle
  | sampling (startedAt : Int)
  | decided (poll : Poll) (cur : HealthSnapshot)

/-- `history` holds the polls of the ticks that ended, oldest first. -/
structure ProfileLoop where
  vars : Loop := {}
  phase : Phase := .idle
  history : List Poll := []

structure Seeder where
  run : Compiler.Invocation
  pending : List Route

structure Lookup where
  line : Bytes
  time : Int
  route : Except RouteError Route
  log : List Entry

/-- A reply with the times of its two lookups and the writes before each. -/
structure Answer where
  helper : Nat
  line : Bytes
  routeAt : Int
  logAtRoute : List Entry
  statusAt : Int
  logAtStatus : List Entry
  text : Bytes

structure State (Raw : Type) where
  now : Int
  redis : Redis Raw := Expiring.empty
  loops : Nat → ProfileLoop := fun _ => {}
  compilers : Nat → Option Seeder := fun _ => none
  helpers : Nat → Option Lookup := fun _ => none
  log : List Entry := []
  answers : List Answer := []

/-- A step of the system; `ok` and `reachable` are whether the Redis call succeeds. -/
inductive Action where
  | wait (elapsed : Nat)
  | expire (key : Bytes)
  | startLoop (i : Nat)
  | beginTick (i : Nat)
  | sample (i : Nat) (egress : Option Bytes) (wg : Option WgReading) (probe : Probe)
  | setStatus (i : Nat) (ok : Bool)
  | compile (j : Nat) (run : Compiler.Invocation)
  | setRoute (j : Nat) (ok : Bool)
  | getRoute (k : Nat) (line : Bytes) (reachable : Bool)
  | getStatus (k : Nat) (reachable : Bool)

variable {Raw : Type}

def State.setLoop (s : State Raw) (i : Nat) (l : ProfileLoop) : State Raw :=
  { s with loops := Function.update s.loops i l }

def State.setSeeder (s : State Raw) (j : Nat) (c : Option Seeder) : State Raw :=
  { s with compilers := Function.update s.compilers j c }

def State.setLookup (s : State Raw) (k : Nat) (l : Option Lookup) : State Raw :=
  { s with helpers := Function.update s.helpers k l }

def State.store (s : State Raw) (w : Write Raw) (e : Entry) : State Raw :=
  { s with redis := Expiring.put s.redis w, log := e :: s.log }

def ProfileLoop.finish (l : ProfileLoop) (p : Poll) (cur : HealthSnapshot) : ProfileLoop :=
  ⟨l.vars.record cur, .idle, l.history ++ [p]⟩

/-- What a run of the compiler has to seed once it has opened Redis. -/
def toSeed (run : Compiler.Invocation) : List Route :=
  match run.prepare, run.redisAddr with
  | .ok (some c), some redis => if redis.opens then c.routes else []
  | _, _ => []

/-- The bus as a request finds it: the route it has read, and the status now. -/
def Lookup.decider (json : Codec Raw) (maxAge : Int) (s : State Raw) (reachable : Bool)
    (l : Lookup) : Decider where
  getRoute _ := l.route
  getStatus := Bus.getStatus json s.redis s.now maxAge reachable

def step (json : Codec Raw) (d : Deployment) (s : State Raw) : Action → State Raw
  | .wait elapsed => { s with now := s.now + elapsed }
  | .expire key => { s with redis := Expiring.evict s.redis s.now key }
  -- healthd is started again and has forgotten its baseline
  | .startLoop i => s.setLoop i {}
  | .beginTick i =>
    match (s.loops i).phase with
    | .idle => s.setLoop i { s.loops i with phase := .sampling s.now }
    | _ => s
  | .sample i egress wg probe =>
    match (s.loops i).phase with
    | .sampling startedAt =>
      let p : Poll := { startedAt, egress, wg, probe, failedAt := s.now }
      s.setLoop i { s.loops i with phase := .decided p (poll (d.healthd i) (s.loops i).vars p) }
    | _ => s
  | .setStatus i ok =>
    match (s.loops i).phase with
    -- the event that may follow goes to a channel and touches no key
    | .decided p cur =>
      let s' := s.setLoop i ((s.loops i).finish p cur)
      if ok then
        s'.store (statusWrite json s.now cur (d.healthd i).ttlSeconds)
          (.status s.now i (s.loops i).history p)
      else s'
    | _ => s
  | .compile j run => s.setSeeder j (some ⟨run, toSeed run⟩)
  | .setRoute j ok =>
    match s.compilers j with
    | some ⟨run, r :: rest⟩ =>
      if ok then (s.setSeeder j (some ⟨run, rest⟩)).store (routeWrite json s.now r)
        (.route s.now run r)
      -- the first `SetRoute` that fails ends the run
      else s.setSeeder j none
    | _ => s
  | .getRoute k line reachable =>
    match s.helpers k with
    | none =>
      s.setLookup k (some ⟨line, s.now,
        Bus.getRoute json s.redis s.now reachable (parseLine line).host, s.log⟩)
    | some _ => s
  | .getStatus k reachable =>
    match s.helpers k with
    | none => s
    | some l =>
      { s.setLookup k none with
        answers := ⟨k, l.line, l.time, l.log, s.now, s.log,
          reply (l.decider json (d.maxAge k) s reachable) l.line⟩ :: s.answers }

def run (json : Codec Raw) (d : Deployment) (start : Int) (actions : List Action) : State Raw :=
  actions.foldl (step json d) { now := start }

end HelixProxy.ControlPlane
