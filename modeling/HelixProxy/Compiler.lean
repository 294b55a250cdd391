import HelixProxy.AclHelper
import HelixProxy.RoutingFacts

/-!
# Runs of the config compiler

`cmd/compiler`: compile, write the artefacts, then seed one route per resolved
target. Nothing is ever removed from Redis, so what earlier runs seeded stays.
-/

namespace HelixProxy.Compiler

open Bus Routing Store
set_option autoImplicit false

/-- What `--redis-addr` leads to; `accepts i` is whether the `i`-th `SetRoute` succeeds. -/
structure Seeding where
  opens : Bool := true
  accepts : Nat → Bool := fun _ => true

/-- One run: its flags and what the calls it makes do. A file flag that is not
given is `none`, else the outcome of the write. -/
structure Invocation where
  flagsParse : Bool := true
  showVersion : Bool := false
  dsn : Bytes
  storeOpens : Bool := true
  store : Queries
  squidOut : Option Bool := none
  danteBase : Option Bool := none
  danteOut : Option Bool := none
  pacOut : Option Bool := none
  redisAddr : Option Seeding := none
  time : Int := 0

inductive Failure where
  | flags
  | dsnRequired
  | openStore
  | compile
  | readDanteBase
  | writeFile
  | openRedis
  | seedRoute (target : Bytes)
  deriving DecidableEq, Repr

/-- `run` up to the seeding; `none` is a run that only prints the version. -/
def Invocation.prepare (inv : Invocation) : Except Failure (Option Compiled) :=
  if !inv.flagsParse then .error .flags
  else if inv.showVersion then .ok none
  else if inv.dsn = [] then .error .dsnRequired
  else if !inv.storeOpens then .error .openStore
  else match compileAll inv.store with
    | none => .error .compile
    | some c =>
      if inv.squidOut = some false then .error .writeFile
      -- the base is read only for an output that is asked for
      else if inv.danteOut.isSome && inv.danteBase = some false then .error .readDanteBase
      else if inv.danteOut = some false then .error .writeFile
      else if inv.pacOut = some false then .error .writeFile
      else .ok (some c)

/-- The seeding loop: the routes written, and the one whose `SetRoute` failed. -/
def seed (accepts : Nat → Bool) : Nat → List Route → List Route × Option Route
  | _, [] => ([], none)
  | i, r :: rest =>
    if accepts i then (r :: (seed accepts (i + 1) rest).1, (seed accepts (i + 1) rest).2)
    else ([], some r)

/-- What the run does to Redis, as routes in the order they are written, and
what it returns. -/
def Invocation.seeded (inv : Invocation) : List Route × Except Failure (Option Compiled) :=
  match inv.prepare with
  | .error e => ([], .error e)
  | .ok none => ([], .ok none)
  | .ok (some c) =>
    match inv.redisAddr with
    | none => ([], .ok (some c))
    | some s =>
      if !s.opens then ([], .error .openRedis)
      else match seed s.accepts 0 c.routes with
        | (written, none) => (written, .ok (some c))
        | (written, some r) => (written, .error (.seedRoute r.target))

variable {Raw : Type}

def run (json : Codec Raw) (r : Redis Raw) (inv : Invocation) :
    Redis Raw × Except Failure (Option Compiled) :=
  (inv.seeded.1.foldl (fun s route => Expiring.put s (routeWrite json inv.time route)) r,
    inv.seeded.2)

def redisAfter (json : Codec Raw) (history : List Invocation) : Redis Raw :=
  history.foldl (fun r inv => (run json r inv).1) Expiring.empty

def Invocation.Completes (inv : Invocation) (c : Compiled) : Prop :=
  inv.redisAddr.isSome = true ∧ inv.seeded.2 = .ok (some c)

/-- After the last run a host has a route exactly if that run resolved it, and
it is the route of that run; for any other host the helper answers ERR. -/
structure RoutesCurrent (json : Codec Raw) (r : Redis Raw) (c : Compiled) (now : Int) : Prop where
  resolved : ∀ host route, getRoute json r now true host = .ok route ↔
    route ∈ c.routes ∧ route.target = host
  unresolved : ∀ host, (∀ route ∈ c.routes, route.target ≠ host) →
    getRoute json r now true host = .error .notFound ∧
      ∀ status, (AclHelper.Decider.mk (getRoute json r now true) status).decide host = (false, [])

theorem seed_complete {accepts : Nat → Bool} {i : Nat} {routes : List Route}
    (h : (seed accepts i routes).2 = none) : (seed accepts i routes).1 = routes := by
  induction routes generalizing i with
  | nil => rfl
  | cons r rest ih =>
    unfold seed at h ⊢
    split at h
    · next ha => simp [ha, ih h]
    · cases h

theorem prepare_compiles {inv : Invocation} {c : Compiled} (h : inv.prepare = .ok (some c)) :
    compileAll inv.store = some c := by
  unfold Invocation.prepare at h
  repeat' split at h
  all_goals simp_all

theorem Invocation.Completes.seeded_eq {inv : Invocation} {c : Compiled} (h : inv.Completes c) :
    inv.seeded.1 = c.routes ∧ compileAll inv.store = some c := by
  obtain ⟨haddr, hret⟩ := h
  obtain ⟨s, hs⟩ := Option.isSome_iff_exists.mp haddr
  unfold Invocation.seeded at hret ⊢
  cases hp : inv.prepare with
  | error e => simp [hp] at hret
  | ok out =>
    cases out with
    | none => simp [hp] at hret
    | some c' =>
      have hcompile := prepare_compiles hp
      simp only [hp, hs] at hret ⊢
      by_cases ho : s.opens = true
      · rcases hseed : seed s.accepts 0 c'.routes with ⟨written, failed⟩
        cases failed with
        | none =>
          have hall := seed_complete (show (seed s.accepts 0 c'.routes).2 = none by rw [hseed])
          simp only [ho, hseed, Bool.not_true, Bool.false_eq_true, if_false, Except.ok.injEq,
            Option.some.injEq] at hret hall ⊢
          exact ⟨hret ▸ hall, hret ▸ hcompile⟩
        | some r => simp [ho, hseed] at hret
      · simp [ho] at hret

def lastFor (routes : List Route) (host : Bytes) : Option Route :=
  routes.reverse.find? fun route => route.target = host

theorem lastFor_append (as bs : List Route) (host : Bytes) :
    lastFor (as ++ bs) host = (lastFor bs host).or (lastFor as host) := by
  simp [lastFor, List.find?_append]

theorem lastFor_eq_none_iff (routes : List Route) (host : Bytes) :
    lastFor routes host = none ↔ ∀ route ∈ routes, route.target ≠ host := by
  simp [lastFor]

theorem lastFor_mem {routes : List Route} {host : Bytes} {route : Route}
    (h : lastFor routes host = some route) : route ∈ routes ∧ route.target = host := by
  have hmem := List.mem_of_find?_eq_some h
  have htarget := List.find?_some h
  exact ⟨List.mem_reverse.mp hmem, by simpa using htarget⟩

def seededRoutes (history : List Invocation) : List Route := history.flatMap (·.seeded.1)

theorem foldl_put_route (json : Codec Raw) (time : Int) (routes : List Route) (r : Redis Raw)
    (host : Bytes) :
    routes.foldl (fun s route => Expiring.put s (routeWrite json time route)) r (routeKey host) =
      ((lastFor routes host).map fun route => ⟨json.marshalRoute route, none⟩).or
        (r (routeKey host)) := by
  induction routes using List.reverseRecOn with
  | nil => rfl
  | append_singleton routes last ih =>
    rw [List.foldl_append, List.foldl_cons, List.foldl_nil, lastFor_append]
    by_cases h : last.target = host
    · simp [h, Expiring.put, routeWrite, lastFor]
    · have hk : routeKey host ≠ routeKey last.target := fun he => h (routeKey_inj.mp he).symm
      rw [Expiring.put, routeWrite, Function.update_of_ne hk, ih]
      simp [lastFor, h]

theorem seededRoutes_concat (history : List Invocation) (inv : Invocation) :
    seededRoutes (history ++ [inv]) = seededRoutes history ++ inv.seeded.1 := by
  simp [seededRoutes]

theorem redisAfter_concat (json : Codec Raw) (history : List Invocation) (inv : Invocation) :
    redisAfter json (history ++ [inv]) = inv.seeded.1.foldl
      (fun s route => Expiring.put s (routeWrite json inv.time route)) (redisAfter json history) := by
  simp [redisAfter, run]

/-- One run adds its routes to what the earlier runs left, and removes none; so
a route key holds the last route any run wrote for the host. -/
theorem redisAfter_routeKey (json : Codec Raw) (history : List Invocation) (host : Bytes) :
    redisAfter json history (routeKey host) =
      (lastFor (seededRoutes history) host).map fun route => ⟨json.marshalRoute route, none⟩ := by
  induction history using List.reverseRecOn with
  | nil => rfl
  | append_singleton history inv ih =>
    rw [redisAfter_concat, foldl_put_route, ih, seededRoutes_concat, lastFor_append]
    cases lastFor inv.seeded.1 host <;> simp

/-- A lookup returns the route its key holds; seeded routes never expire. -/
theorem getRoute_of_entry {json : Codec Raw} {r : Redis Raw} {host : Bytes} (now : Int)
    (found : Option Route) :
    r (routeKey host) = found.map (fun route => ⟨json.marshalRoute route, none⟩) →
      getRoute json r now true host =
        match found with
        | some route => .ok route
        | none => .error .notFound := by
  intro h
  have hlive : ∀ route, (Expiring.Entry.mk (json.marshalRoute route) none).Live now :=
    fun _ _ hd => by cases hd
  cases found with
  | none => simp [getRoute, Expiring.get, h]
  | some route => simp [getRoute, Expiring.get, h, hlive, json.route_round_trip]

theorem getRoute_redisAfter (json : Codec Raw) (history : List Invocation) (now : Int)
    (host : Bytes) :
    getRoute json (redisAfter json history) now true host =
      match lastFor (seededRoutes history) host with
      | some route => .ok route
      | none => .error .notFound :=
  getRoute_of_entry now _ (redisAfter_routeKey json history host)

section Current

variable {json : Codec Raw} {history : List Invocation} {last : Invocation} {c : Compiled}
  {now : Int}

/-- What is read after a completed run: its own routes first, then the earlier ones. -/
theorem Invocation.Completes.getRoute_eq (hlast : last.Completes c) (host : Bytes) :
    getRoute json (redisAfter json (history ++ [last])) now true host =
      match (lastFor c.routes host).or (lastFor (seededRoutes history) host) with
      | some route => .ok route
      | none => .error .notFound := by
  rw [getRoute_redisAfter, seededRoutes_concat, hlast.seeded_eq.1, lastFor_append]

theorem redisAfter_ne_none_iff (json : Codec Raw) (history : List Invocation) (host : Bytes) :
    redisAfter json history (routeKey host) ≠ none ↔
      lastFor (seededRoutes history) host ≠ none := by
  rw [redisAfter_routeKey, ne_eq, ne_eq, Option.map_eq_none_iff]

theorem RoutesCurrent.covers (hlast : last.Completes c)
    (h : RoutesCurrent json (redisAfter json (history ++ [last])) c now) {host : Bytes}
    (hold : redisAfter json history (routeKey host) ≠ none) : Resolvable last.store host := by
  rw [resolvable_iff hlast.seeded_eq.2]
  by_contra hnone
  have hgone : ∀ route ∈ c.routes, route.target ≠ host :=
    fun route hr he => hnone ⟨route, hr, he⟩
  obtain ⟨kept, hk⟩ := Option.ne_none_iff_exists'.mp ((redisAfter_ne_none_iff json _ _).mp hold)
  -- the earlier route is still there, although this run has none for the host
  have herr := (h.unresolved host hgone).1
  rw [hlast.getRoute_eq, (lastFor_eq_none_iff _ _).mpr hgone, Option.none_or, hk] at herr
  cases herr

theorem getRoute_notFound (hlast : last.Completes c)
    (h : ∀ host, redisAfter json history (routeKey host) ≠ none → Resolvable last.store host)
    {host : Bytes} (hgone : ∀ route ∈ c.routes, route.target ≠ host) :
    getRoute json (redisAfter json (history ++ [last])) now true host = .error .notFound := by
  have hold : lastFor (seededRoutes history) host = none := by
    by_contra hold
    have hres := h host ((redisAfter_ne_none_iff json _ _).mpr hold)
    obtain ⟨route, hr, ht⟩ := (resolvable_iff hlast.seeded_eq.2 host).mp hres
    exact hgone route hr ht
  rw [hlast.getRoute_eq, (lastFor_eq_none_iff _ _).mpr hgone, hold]
  rfl

end Current

/-- After a completed run the routes are current exactly when every host that
already had a route before it resolves in the store it has read. -/
theorem routes_current_iff (json : Codec Raw) (history : List Invocation) (last : Invocation)
    (c : Compiled) (hlast : last.Completes c) (now : Int) :
    RoutesCurrent json (redisAfter json (history ++ [last])) c now ↔
      ∀ host, redisAfter json history (routeKey host) ≠ none → Resolvable last.store host := by
  refine ⟨fun h host hold => h.covers hlast hold, fun h => ⟨fun host route => ?_,
    fun host hgone => ⟨getRoute_notFound hlast h hgone, fun status => ?_⟩⟩⟩
  · cases hcur : lastFor c.routes host with
    | none =>
      have hgone := (lastFor_eq_none_iff _ _).mp hcur
      rw [getRoute_notFound hlast h hgone]
      simp only [reduceCtorEq, false_iff]
      exact fun hr => hgone route hr.1 hr.2
    | some cur =>
      obtain ⟨hmem, htarget⟩ := lastFor_mem hcur
      simp only [hlast.getRoute_eq, hcur, Option.some_or, Except.ok.injEq]
      constructor
      · rintro rfl
        exact ⟨hmem, htarget⟩
      · rintro ⟨hr, ht⟩
        exact routes_unique hlast.seeded_eq.2 hmem hr (htarget.trans ht.symm)
  · apply AclHelper.decide_eq_err
    rintro tag ⟨-, -, route, hroute, -⟩
    exact absurd ((getRoute_notFound hlast h hgone).symm.trans hroute) (by simp)

def crmStore (enabled : Bool) : Queries where
  listProfiles := some ⟨[{ id := lit "p1", name := lit "eu" }], by simp, by simp⟩
  listTargets := some ⟨[{ id := lit "t1", publicAlias := lit "crm", privateIP := lit "10.0.0.5",
                          vpnProfileID := lit "p1", enabled }], by simp⟩
  listTiers _ := some []

def crmRun (enabled : Bool) : Invocation :=
  { dsn := lit "postgres://helix", store := crmStore enabled, redisAddr := some {} }

def crmCompiled (enabled : Bool) : Compiled :=
  (compileAll (crmStore enabled)).getD ⟨[], [], []⟩

theorem crmRun_completes (enabled : Bool) : (crmRun enabled).Completes (crmCompiled enabled) := by
  cases enabled <;> exact ⟨rfl, by decide⟩

/-- The target has moved to another profile. -/
def movedStore : Queries where
  listProfiles := some ⟨[{ id := lit "p1", name := lit "eu" }, { id := lit "p2", name := lit "us" }],
    by decide, by decide⟩
  listTargets := (crmStore true).listTargets
  listTiers _ := some [⟨lit "t1", lit "p2", 0⟩]

def movedRun : Invocation :=
  { dsn := lit "postgres://helix", store := movedStore, redisAddr := some {} }

def movedCompiled : Compiled := (compileAll movedStore).getD ⟨[], [], []⟩

theorem movedRun_completes : movedRun.Completes movedCompiled := ⟨rfl, by decide⟩

theorem movedStore_resolvable : Resolvable movedStore (lit "crm") :=
  (resolvable_iff movedRun_completes.seeded_eq.2 _).mpr (by decide)

/-- A target that still resolves has the route of the last run, not the earlier one. -/
theorem routes_current_crm :
    redisAfter documents [crmRun true] (routeKey (lit "crm")) ≠ none ∧
      RoutesCurrent documents (redisAfter documents ([crmRun true] ++ [movedRun])) movedCompiled 0 := by
  refine ⟨by decide, (routes_current_iff documents [crmRun true] movedRun movedCompiled
    movedRun_completes 0).mpr fun host hold => ?_⟩
  have hseeded : (seededRoutes [crmRun true]).map Route.target = [lit "crm"] := by decide
  obtain ⟨route, hroute⟩ :=
    Option.ne_none_iff_exists'.mp ((redisAfter_ne_none_iff documents _ _).mp hold)
  obtain ⟨hmem, rfl⟩ := lastFor_mem hroute
  have hcrm := List.mem_map_of_mem (f := Route.target) hmem
  rw [hseeded, List.mem_singleton] at hcrm
  rw [hcrm]
  exact movedStore_resolvable

/-- A target that is disabled between two runs keeps its route. -/
theorem routes_not_current :
    (crmRun false).Completes (crmCompiled false) ∧
      ¬ RoutesCurrent documents (redisAfter documents ([crmRun true] ++ [crmRun false]))
        (crmCompiled false) 0 := by
  refine ⟨crmRun_completes false, fun h => ?_⟩
  have hgone := (h.unresolved (lit "crm") (by decide)).1
  revert hgone
  decide

end HelixProxy.Compiler
