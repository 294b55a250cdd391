import HelixProxy.ControlPlane

/-!
# The control plane does not depend on the encoding

The processes see Redis through `SetStatus`, `GetStatus`, `SetRoute` and
`GetRoute` only. Over two codecs they take the same steps: whatever the order of
the steps, the loops decide the same and the helpers answer the same, and the
two stores hold the same snapshots and routes, each in its own encoding.
-/

namespace HelixProxy.Bus

open Vpn Expiring
set_option autoImplicit false

variable {Raw Raw' : Type} {json : Codec Raw} {json' : Codec Raw'}

/-- One snapshot or route in both encodings, under its key. -/
inductive SameValue (json : Codec Raw) (json' : Codec Raw') : Bytes → Raw → Raw' → Prop
  | status (snap : HealthSnapshot) :
      SameValue json json' (statusKey snap.profile) (json.marshalStatus snap)
        (json'.marshalStatus snap)
  | route (r : Route) :
      SameValue json json' (routeKey r.target) (json.marshalRoute r) (json'.marshalRoute r)

theorem SameValue.unmarshalStatus {profile key : Bytes} {v : Raw} {v' : Raw'}
    (h : SameValue json json' key v v') (hkey : key = statusKey profile) :
    json.unmarshalStatus v = json'.unmarshalStatus v' := by
  cases h with
  | status snap => rw [json.status_round_trip, json'.status_round_trip]
  | route r => exact absurd hkey.symm (statusKey_ne_routeKey profile r.target)

theorem SameValue.unmarshalRoute {target key : Bytes} {v : Raw} {v' : Raw'}
    (h : SameValue json json' key v v') (hkey : key = routeKey target) :
    json.unmarshalRoute v = json'.unmarshalRoute v' := by
  cases h with
  | status snap => exact absurd hkey (statusKey_ne_routeKey snap.profile target)
  | route r => rw [json.route_round_trip, json'.route_round_trip]

section Reads

variable {r : Redis Raw} {r' : Redis Raw'} (h : Related (SameValue json json') r r')
include h

theorem getRoute_same (now : Int) (reachable : Bool) (target : Bytes) :
    getRoute json r now reachable target = getRoute json' r' now reachable target := by
  unfold getRoute
  rcases h.get now (routeKey target) with ⟨hget, hget'⟩ | ⟨v, v', hget, hget', hsame⟩
  · rw [hget, hget']
  · have hread := hsame.unmarshalRoute rfl
    rw [hget, hget']
    dsimp only
    rw [hread]

theorem getStatus_same (now maxAge : Int) (reachable : Bool) (profile : Bytes) :
    getStatus json r now maxAge reachable profile =
      getStatus json' r' now maxAge reachable profile := by
  have hnone : evaluateStatus json profile none now maxAge =
      evaluateStatus json' profile none now maxAge := rfl
  unfold getStatus
  rcases h.get now (statusKey profile) with ⟨hget, hget'⟩ | ⟨v, v', hget, hget', hsame⟩
  · rw [hget, hget', hnone]
  · have hread : evaluateStatus json profile (some v) now maxAge =
        evaluateStatus json' profile (some v') now maxAge := by
      rw [evaluateStatus, evaluateStatus, Option.map_some, Option.map_some, hsame.unmarshalStatus rfl]
    rw [hget, hget', hnone, hread]

end Reads

end HelixProxy.Bus

namespace HelixProxy.ControlPlane

open Vpn Bus Healthd AclHelper Expiring
set_option autoImplicit false

variable {Raw Raw' : Type} {json : Codec Raw} {json' : Codec Raw'}

/-- The same but for the encoding of what Redis holds. -/
structure Alike (json : Codec Raw) (json' : Codec Raw') (s : State Raw) (s' : State Raw') : Prop where
  now : s.now = s'.now
  redis : Related (SameValue json json') s.redis s'.redis
  loops : s.loops = s'.loops
  compilers : s.compilers = s'.compilers
  helpers : s.helpers = s'.helpers
  log : s.log = s'.log
  answers : s.answers = s'.answers

section Steps

variable {s : State Raw} {s' : State Raw'} (h : Alike json json' s s')
include h

theorem Alike.setLoop (i : Nat) (l : ProfileLoop) :
    Alike json json' (s.setLoop i l) (s'.setLoop i l) :=
  { h with loops := by rw [State.setLoop, State.setLoop, h.loops] }

theorem Alike.setSeeder (j : Nat) (c : Option Seeder) :
    Alike json json' (s.setSeeder j c) (s'.setSeeder j c) :=
  { h with compilers := by rw [State.setSeeder, State.setSeeder, h.compilers] }

theorem Alike.setLookup (k : Nat) (l : Option Lookup) :
    Alike json json' (s.setLookup k l) (s'.setLookup k l) :=
  { h with helpers := by rw [State.setLookup, State.setLookup, h.helpers] }

theorem Alike.storeStatus (now : Int) (snap : HealthSnapshot) (ttl : Int) (e : Entry) :
    Alike json json' (s.store (statusWrite json now snap ttl) e)
      (s'.store (statusWrite json' now snap ttl) e) :=
  { h with redis := h.redis.put rfl rfl (.status snap), log := congrArg (e :: ·) h.log }

theorem Alike.storeRoute (now : Int) (r : Route) (e : Entry) :
    Alike json json' (s.store (routeWrite json now r) e) (s'.store (routeWrite json' now r) e) :=
  { h with redis := h.redis.put rfl rfl (.route r), log := congrArg (e :: ·) h.log }

theorem Alike.reply (maxAge : Int) (reachable : Bool) (l : Lookup) :
    reply (l.decider json maxAge s reachable) l.line =
      reply (l.decider json' maxAge s' reachable) l.line := by
  have hstatus : Bus.getStatus json s.redis s.now maxAge reachable =
      Bus.getStatus json' s'.redis s'.now maxAge reachable := by
    funext profile
    rw [← h.now]
    exact getStatus_same h.redis s.now maxAge reachable profile
  unfold Lookup.decider
  rw [hstatus]

theorem Alike.step (d : Deployment) (a : Action) :
    Alike json json' (step json d s a) (step json' d s' a) := by
  cases a with
  | wait elapsed => exact { h with now := congrArg (· + (elapsed : Int)) h.now }
  | expire key =>
    refine { h with redis := ?_ }
    change Related _ (evict s.redis s.now key) (evict s'.redis s'.now key)
    rw [← h.now]
    exact h.redis.evict s.now key
  | startLoop i => exact h.setLoop i {}
  | beginTick i =>
    simp only [ControlPlane.step, ← h.loops, ← h.now]
    split
    · exact h.setLoop i _
    · exact h
  | sample i egress wg probe =>
    simp only [ControlPlane.step, ← h.loops, ← h.now]
    split
    · exact h.setLoop i _
    · exact h
  | setStatus i ok =>
    simp only [ControlPlane.step, ← h.loops, ← h.now]
    split
    · next p cur _ =>
      have hloop := h.setLoop i ((s.loops i).finish p cur)
      cases ok with
      | false => exact hloop
      | true => exact hloop.storeStatus s.now cur _ _
    · exact h
  | compile j run => exact h.setSeeder j _
  | setRoute j ok =>
    simp only [ControlPlane.step, ← h.compilers, ← h.now]
    split
    · next run r rest _ =>
      cases ok with
      | false => exact h.setSeeder j none
      | true => exact (h.setSeeder j (some ⟨run, rest⟩)).storeRoute s.now r _
    · exact h
  | getRoute k line reachable =>
    simp only [ControlPlane.step, ← h.helpers, ← h.now, ← h.log]
    split
    · rw [getRoute_same h.redis]
      exact h.setLookup k _
    · exact h
  | getStatus k reachable =>
    simp only [ControlPlane.step, ← h.helpers]
    split
    · exact h
    · next l _ =>
      refine { h.setLookup k none with answers := ?_ }
      dsimp only
      rw [h.reply, h.now, h.log, h.answers]

end Steps

theorem alike_run (json : Codec Raw) (json' : Codec Raw') (d : Deployment) (start : Int)
    (actions : List Action) : Alike json json' (run json d start actions) (run json' d start actions) := by
  have hrun : ∀ (s : State Raw) (s' : State Raw'), Alike json json' s s' →
      Alike json json' (actions.foldl (step json d) s) (actions.foldl (step json' d) s') := by
    induction actions with
    | nil => exact fun _ _ h => h
    | cons a rest ih => exact fun s s' h => ih _ _ (h.step d a)
  exact hrun _ _ ⟨rfl, related_empty, rfl, rfl, rfl, rfl, rfl⟩

end HelixProxy.ControlPlane
