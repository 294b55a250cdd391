import HelixProxy.ControlPlane

/-!
# Fail-closed routing from end to end

Whatever the order of the steps, an affirmative answer of a helper rests on a
route that some compile pass resolved and on a status that some tick decided up
on real evidence, each the last one written when it was read. The invariant
ties every value in Redis to the step that wrote it.
-/

namespace HelixProxy.ControlPlane

open Vpn Bus Healthd AclHelper Routing
set_option autoImplicit false

variable {Raw : Type}

def Entry.isRouteTo (host : Bytes) : Entry → Bool
  | .route _ _ r => r.target = host
  | .status .. => false

def Entry.isStatusOf (d : Deployment) (profile : Bytes) : Entry → Bool
  | .status _ i _ _ => (d.healthd i).profile = profile
  | .route .. => false

def lastRoute (log : List Entry) (host : Bytes) : Option Entry := log.find? (·.isRouteTo host)

def lastStatus (d : Deployment) (log : List Entry) (profile : Bytes) : Option Entry :=
  log.find? (·.isStatusOf d profile)

/-- The run compiled, and resolved the route: its host is an enabled target
whose primary profile is an enabled row, named by the tunnel. -/
def Produced (inv : Compiler.Invocation) (r : Route) : Prop :=
  ∃ c, inv.prepare = .ok (some c) ∧ r ∈ c.routes ∧
    ∃ ps ts tgt p, inv.store.listProfiles = some ps ∧ inv.store.listTargets = some ts ∧
      tgt ∈ ts.rows ∧ tgt.publicAlias = r.target ∧ p.name = r.tunnel ∧
      ResolvesTo inv.store ps tgt p r.tier

/-- At time `t` the last route written for the host was `r`, by a run that produced it. -/
def RouteSeeded (log : List Entry) (host : Bytes) (r : Route) (t : Int) : Prop :=
  r.target = host ∧ ∃ time inv, lastRoute log host = some (.route time inv r) ∧ time ≤ t ∧
    Produced inv r

/-- At time `t` the last status written for the tunnel is up and unexpired: it
was published by a tick of its loop that had seen the evidence for it. -/
def StatusProved (d : Deployment) (log : List Entry) (tunnel : Bytes) (maxAge t : Int) : Prop :=
  ∃ time i history p, lastStatus d log tunnel = some (.status time i history p) ∧
    (d.healthd i).profile = tunnel ∧ p.startedAt ≤ time ∧ time ≤ t ∧
    t < time + (d.healthd i).ttlSeconds * second ∧
    Evidence (d.healthd i) (loopAfter (d.healthd i) history).prev p ∧
    (0 < maxAge → sub t p.startedAt ≤ maxAge)

/-- What an answer of OK with this tag rests on. Writes may come between its
two lookups. -/
structure Justified (d : Deployment) (a : Answer) (tag : Bytes) : Prop where
  ordered : a.routeAt ≤ a.statusAt ∧ a.logAtRoute <:+ a.logAtStatus
  tagged : tag ≠ []
  routed : ∃ r, r.tunnel = tag ∧ RouteSeeded a.logAtRoute (parseLine a.line).host r a.routeAt
  proved : StatusProved d a.logAtStatus tag (d.maxAge a.helper) a.statusAt

def Entry.write (json : Codec Raw) (d : Deployment) : Entry → Write Raw
  | .status time i history p =>
    statusWrite json time (poll (d.healthd i) (loopAfter (d.healthd i) history) p)
      (d.healthd i).ttlSeconds
  | .route time _ r => routeWrite json time r

def Entry.Genuine (now : Int) : Entry → Prop
  | .status time _ _ p => p.startedAt ≤ time ∧ time ≤ now
  | .route time inv r => time ≤ now ∧ Produced inv r

/-- The loop's variables are those of its own earlier ticks. -/
def ProfileLoop.Sound (c : Config) (now : Int) (l : ProfileLoop) : Prop :=
  l.vars = loopAfter c l.history ∧ match l.phase with
    | .idle => True
    | .sampling startedAt => startedAt ≤ now
    | .decided p cur => cur = poll c l.vars p ∧ p.startedAt ≤ now

def Lookup.Sound (now : Int) (log : List Entry) (l : Lookup) : Prop :=
  (l.time ≤ now ∧ l.log <:+ log) ∧
    ∀ r, l.route = .ok r → RouteSeeded l.log (parseLine l.line).host r l.time

structure Inv (json : Codec Raw) (d : Deployment) (s : State Raw) : Prop where
  agrees : Expiring.Agrees s.redis (s.log.map (Entry.write json d)) s.now
  genuine : ∀ e ∈ s.log, e.Genuine s.now
  loops : ∀ i, (s.loops i).Sound (d.healthd i) s.now
  seeders : ∀ j c, s.compilers j = some c → ∀ r ∈ c.pending, Produced c.run r
  lookups : ∀ k l, s.helpers k = some l → l.Sound s.now s.log
  answers : ∀ a ∈ s.answers, ∀ tag, a.text = formatReply (parseLine a.line).channel true tag →
    Justified d a tag

section Reads

variable (json : Codec Raw) (d : Deployment)

theorem write_key_route (host : Bytes) (e : Entry) :
    decide ((e.write json d).key = routeKey host) = e.isRouteTo host := by
  cases e with
  | status => simp [Entry.write, Entry.isRouteTo, statusWrite, statusKey_ne_routeKey]
  | route => simp [Entry.write, Entry.isRouteTo, routeWrite, routeKey_inj]

theorem write_key_status (profile : Bytes) (e : Entry) :
    decide ((e.write json d).key = statusKey profile) = e.isStatusOf d profile := by
  cases e with
  | status time i history p =>
    simp [Entry.write, Entry.isStatusOf, statusWrite, statusKey_inj, poll, pollOnce_profile]
  | route time inv r =>
    simp [Entry.write, Entry.isStatusOf, routeWrite, (statusKey_ne_routeKey _ _).symm]

theorem lastWrite_route (log : List Entry) (host : Bytes) :
    Expiring.lastWrite (log.map (Entry.write json d)) (routeKey host) =
      (lastRoute log host).map (Entry.write json d) := by
  simp only [Expiring.lastWrite, lastRoute, List.find?_map]
  congr 2
  funext e
  exact write_key_route json d host e

theorem lastWrite_status (log : List Entry) (profile : Bytes) :
    Expiring.lastWrite (log.map (Entry.write json d)) (statusKey profile) =
      (lastStatus d log profile).map (Entry.write json d) := by
  simp only [Expiring.lastWrite, lastStatus, List.find?_map]
  congr 2
  funext e
  exact write_key_status json d profile e

variable {json d}

theorem Inv.getRoute_ok {s : State Raw} (h : Inv json d s) {reachable : Bool} {host : Bytes}
    {r : Route} (hr : Bus.getRoute json s.redis s.now reachable host = .ok r) :
    RouteSeeded s.log host r s.now := by
  obtain ⟨-, raw, hget, hraw⟩ := (getRoute_ok_iff json _ _ _ _ _).mp hr
  obtain ⟨w, hw, hval, -⟩ := h.agrees.of_get hget
  rw [lastWrite_route] at hw
  obtain ⟨e, he, rfl⟩ := Option.map_eq_some_iff.mp hw
  have hgen := h.genuine e (List.mem_of_find?_eq_some he)
  have hto := List.find?_some he
  cases e with
  | status => cases hto
  | route time inv r' =>
    have hrr : r' = r := by
      rw [← hval] at hraw
      exact Option.some.inj ((json.route_round_trip r').symm.trans hraw)
    subst hrr
    exact ⟨by simpa [Entry.isRouteTo] using hto, time, inv, he, hgen⟩

/-- A status that reads as up is the last one published, and its tick proved it. -/
theorem Inv.getStatus_up {s : State Raw} (h : Inv json d s) {maxAge : Int} {tunnel : Bytes}
    {snap : HealthSnapshot} {reachable : Bool}
    (hs : Bus.getStatus json s.redis s.now maxAge reachable tunnel = (snap, false))
    (hup : snap.state = .up) : StatusProved d s.log tunnel maxAge s.now := by
  cases reachable with
  | false => simp [Bus.getStatus] at hs
  | true =>
    simp only [Bus.getStatus, Bool.not_true, Bool.false_eq_true, if_false, Prod.mk.injEq,
      and_true] at hs
    rw [← hs] at hup
    obtain ⟨doc, cur, hget, hdoc, hcur, hage⟩ := (evaluateStatus_up_iff json _ _ _ _).mp hup
    obtain ⟨w, hw, hval, hlive⟩ := h.agrees.of_get hget
    rw [lastWrite_status] at hw
    obtain ⟨e, he, rfl⟩ := Option.map_eq_some_iff.mp hw
    have hgen := h.genuine e (List.mem_of_find?_eq_some he)
    have hof := List.find?_some he
    cases e with
    | route => cases hof
    | status time i history p =>
      have hcur' : poll (d.healthd i) (loopAfter (d.healthd i) history) p = cur := by
        rw [← hval] at hdoc
        exact Option.some.inj ((json.status_round_trip _).symm.trans hdoc)
      subst hcur'
      rw [poll_checkedAt_of_up hcur] at hage
      -- the value was still there, so its deadline had not passed
      have hdead := hlive _ (deadline_statusTTL (d.ttl_pos i) (d.ttl_fits i))
      refine ⟨time, i, history, p, he, by simpa [Entry.isStatusOf] using hof, hgen.1, hgen.2, hdead,
        (poll_up_iff _ _ _).mp hcur, ?_⟩
      intro hpos
      omega

end Reads

section Steps

variable {json : Codec Raw} {d : Deployment} {s : State Raw}

theorem produced_of_mem_toSeed {inv : Compiler.Invocation} {r : Route} (h : r ∈ toSeed inv) :
    Produced inv r := by
  unfold toSeed at h
  split at h
  · next c redis hprep _ =>
    have hr : r ∈ c.routes := by
      by_cases ho : redis.opens = true
      · simpa [ho] using h
      · simp [ho] at h
    obtain ⟨ps, ts, hps, hts, tgt, htgt, p, tier, hres, rfl⟩ :=
      (mem_routes_iff (Compiler.prepare_compiles hprep) r).mp hr
    exact ⟨c, hprep, hr, ps, ts, tgt, p, hps, hts, htgt, rfl, rfl, hres⟩
  · cases h

theorem Entry.Genuine.later {e : Entry} {t t' : Int} (h : e.Genuine t) (ht : t ≤ t') :
    e.Genuine t' := by
  cases e with
  | status => exact ⟨h.1, h.2.trans ht⟩
  | route => exact ⟨h.1.trans ht, h.2⟩

theorem ProfileLoop.Sound.later {c : Config} {l : ProfileLoop} {t t' : Int} (h : l.Sound c t)
    (ht : t ≤ t') : l.Sound c t' := by
  obtain ⟨hvars, hphase⟩ := h
  refine ⟨hvars, ?_⟩
  cases hp : l.phase with
  | idle => trivial
  | sampling startedAt => exact (by simpa [hp] using hphase : startedAt ≤ t).trans ht
  | decided p cur =>
    simp only [hp] at hphase
    exact ⟨hphase.1, hphase.2.trans ht⟩

theorem Lookup.Sound.later {l : Lookup} {t t' : Int} {log log' : List Entry} (h : l.Sound t log)
    (ht : t ≤ t') (hlog : log <:+ log') : l.Sound t' log' :=
  ⟨⟨h.1.1.trans ht, h.1.2.trans hlog⟩, h.2⟩

theorem Inv.wait (h : Inv json d s) (elapsed : Nat) :
    Inv json d { s with now := s.now + elapsed } := by
  have ht : s.now ≤ s.now + elapsed := by omega
  exact { h with
    agrees := h.agrees.later ht
    genuine := fun e he => (h.genuine e he).later ht
    loops := fun i => (h.loops i).later ht
    lookups := fun k l hl => (h.lookups k l hl).later ht (List.suffix_refl _) }

theorem Inv.setLoop (h : Inv json d s) {i : Nat} {l : ProfileLoop}
    (hl : l.Sound (d.healthd i) s.now) : Inv json d (s.setLoop i l) := by
  refine { h with loops := fun i' => ?_ }
  by_cases hi : i' = i
  · subst hi
    simpa [State.setLoop] using hl
  · simpa [State.setLoop, hi] using h.loops i'

theorem Inv.setSeeder (h : Inv json d s) {j : Nat} {c : Option Seeder}
    (hc : ∀ x, c = some x → ∀ r ∈ x.pending, Produced x.run r) : Inv json d (s.setSeeder j c) := by
  refine { h with seeders := fun j' x hx => ?_ }
  by_cases hj : j' = j
  · subst hj
    exact hc x (by simpa [State.setSeeder] using hx)
  · exact h.seeders j' x (by simpa [State.setSeeder, hj] using hx)

theorem Inv.setLookup (h : Inv json d s) {k : Nat} {l : Option Lookup}
    (hl : ∀ x, l = some x → x.Sound s.now s.log) : Inv json d (s.setLookup k l) := by
  refine { h with lookups := fun k' x hx => ?_ }
  by_cases hk : k' = k
  · subst hk
    exact hl x (by simpa [State.setLookup] using hx)
  · exact h.lookups k' x (by simpa [State.setLookup, hk] using hx)

theorem Inv.store (h : Inv json d s) {e : Entry} (he : e.Genuine s.now) :
    Inv json d (s.store (e.write json d) e) :=
  { h with
    agrees := h.agrees.put _
    genuine := List.forall_mem_cons.mpr ⟨he, h.genuine⟩
    lookups := fun k l hl => (h.lookups k l hl).later (Int.le_refl _) (List.suffix_cons e _) }

theorem Inv.justified (h : Inv json d s) {k : Nat} {l : Lookup} (hl : s.helpers k = some l)
    {reachable : Bool} {tag : Bytes}
    (hok : reply (l.decider json (d.maxAge k) s reachable) l.line =
      formatReply (parseLine l.line).channel true tag) :
    Justified d ⟨k, l.line, l.time, l.log, s.now, s.log,
      reply (l.decider json (d.maxAge k) s reachable) l.line⟩ tag := by
  obtain ⟨hbefore, hroute⟩ := h.lookups k l hl
  have hverdict : (l.decider json (d.maxAge k) s reachable).decide (parseLine l.line).host =
      (true, tag) := by
    rw [← decideWithTimeout_eq]
    exact Prod.ext_iff.mpr (formatReply_ok hok)
  obtain ⟨-, htag, r, hr, htunnel, snap, hsnap, hup⟩ := (decide_eq_ok_iff _ _ _).mp hverdict
  exact ⟨hbefore, htag, ⟨r, htunnel, hroute r hr⟩, h.getStatus_up hsnap hup⟩

/-- The end of a tick: the loop remembers its poll, and a status that is stored
is the one its variables gave. -/
theorem Inv.setStatus (h : Inv json d s) {i : Nat} {p : Poll} {cur : HealthSnapshot}
    (hp : (s.loops i).phase = .decided p cur) (ok : Bool) :
    Inv json d (step json d s (.setStatus i ok)) := by
  obtain ⟨hvars, hphase⟩ := h.loops i
  simp only [hp] at hphase
  obtain ⟨rfl, hstart⟩ := hphase
  have hfin : Inv json d (s.setLoop i ((s.loops i).finish p (poll (d.healthd i)
      (s.loops i).vars p))) := by
    refine h.setLoop ⟨?_, trivial⟩
    simp only [ProfileLoop.finish, loopAfter_concat, tick, ← hvars]
  simp only [step, hp]
  cases ok with
  | false => exact hfin
  | true =>
    have hstore := hfin.store (e := .status s.now i (s.loops i).history p)
      ⟨hstart, Int.le_refl _⟩
    simpa only [Entry.write, ← hvars, if_true] using hstore

theorem Inv.setRoute (h : Inv json d s) {j : Nat} {inv : Compiler.Invocation} {r : Route}
    {rest : List Route} (hj : s.compilers j = some ⟨inv, r :: rest⟩) (ok : Bool) :
    Inv json d (step json d s (.setRoute j ok)) := by
  have hpending := h.seeders j _ hj
  simp only [step, hj]
  cases ok with
  | false => exact h.setSeeder (by simp)
  | true =>
    refine (h.setSeeder ?_).store (e := .route s.now inv r) ⟨Int.le_refl _, hpending r (by simp)⟩
    intro x hx r' hr'
    obtain rfl := Option.some.inj hx
    exact hpending r' (List.mem_cons_of_mem r hr')

theorem inv_step (h : Inv json d s) (a : Action) : Inv json d (step json d s a) := by
  cases a with
  | wait elapsed => exact h.wait elapsed
  | expire key => exact { h with agrees := h.agrees.evict key }
  | startLoop i => exact h.setLoop ⟨rfl, trivial⟩
  | beginTick i =>
    simp only [step]
    split
    · exact h.setLoop ⟨(h.loops i).1, Int.le_refl _⟩
    · exact h
  | sample i egress wg probe =>
    simp only [step]
    split
    · next startedAt hp =>
      obtain ⟨hvars, hphase⟩ := h.loops i
      simp only [hp] at hphase
      exact h.setLoop ⟨hvars, rfl, hphase⟩
    · exact h
  | setStatus i ok =>
    cases hp : (s.loops i).phase with
    | decided p cur => exact h.setStatus hp ok
    | idle => simpa only [step, hp] using h
    | sampling startedAt => simpa only [step, hp] using h
  | compile j run =>
    refine h.setSeeder fun x hx r hr => ?_
    obtain rfl := Option.some.inj hx
    exact produced_of_mem_toSeed hr
  | setRoute j ok =>
    match hj : s.compilers j with
    | some ⟨_, _ :: _⟩ => exact h.setRoute hj ok
    | some ⟨_, []⟩ => simpa only [step, hj] using h
    | none => simpa only [step, hj] using h
  | getRoute k line reachable =>
    simp only [step]
    split
    · refine h.setLookup fun x hx => ?_
      obtain rfl := Option.some.inj hx
      exact ⟨⟨Int.le_refl _, List.suffix_refl _⟩, fun r hr => h.getRoute_ok hr⟩
    · exact h
  | getStatus k reachable =>
    simp only [step]
    split
    · exact h
    · next l hl =>
      have hidle : Inv json d (s.setLookup k none) := h.setLookup (by simp)
      exact { hidle with
        answers := List.forall_mem_cons.mpr ⟨fun _ => h.justified hl, h.answers⟩ }

theorem inv_run (start : Int) (actions : List Action) : Inv json d (run json d start actions) := by
  refine List.foldlRecOn actions (step json d) ?_ fun s h a _ => inv_step h a
  exact
    { agrees := Expiring.agrees_empty start
      genuine := by simp
      loops := fun i => ⟨rfl, trivial⟩
      seeders := by simp
      lookups := by simp
      answers := by simp }

end Steps

/-- In every run of the system, each reply of OK with a tag is justified. -/
theorem ok_reply_justified (json : Codec Raw) (d : Deployment) (start : Int)
    (actions : List Action) (a : Answer) (ha : a ∈ (run json d start actions).answers)
    (tag : Bytes) (hok : a.text = formatReply (parseLine a.line).channel true tag) :
    Justified d a tag :=
  (inv_run start actions).answers a ha tag hok

def euDeployment : Deployment where
  healthd _ := { profile := lit "eu" }
  maxAge _ := 60 * second
  ttl_pos _ := by decide
  ttl_fits _ := by decide

/-- The route is seeded and the status published while the request is under way. -/
def crmRequest : List Action :=
  [.beginTick 0, .compile 0 (Compiler.crmRun true), .setRoute 0 true,
    .getRoute 0 (lit "7 crm\n") true, .wait 1000000,
    .sample 0 (some (lit "203.0.113.7")) none .succeeded, .setStatus 0 true, .expire (lit "route:crm"),
    .wait 1000000, .getStatus 0 true]

theorem ok_reply_justified_crm :
    ∃ a ∈ (run documents euDeployment second crmRequest).answers,
      a.text = lit "7 OK tag=eu\n" ∧ Justified euDeployment a (lit "eu") := by
  have hanswers : (run documents euDeployment second crmRequest).answers.map
      (fun a => (a.line, a.text)) = [(lit "7 crm\n", lit "7 OK tag=eu\n")] := by decide
  obtain ⟨a, ha, hline⟩ := List.mem_map.mp (hanswers ▸ List.mem_singleton_self _)
  obtain ⟨hline, htext⟩ := Prod.mk.inj hline
  refine ⟨a, ha, htext, ok_reply_justified documents euDeployment second crmRequest a ha _ ?_⟩
  rw [htext, hline]
  decide

end HelixProxy.ControlPlane
