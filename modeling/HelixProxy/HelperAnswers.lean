import HelixProxy.EndToEnd

/-!
# What a helper answers, exactly

A request is two lookups with any steps of the other processes between them.
The reply is OK with a tag exactly when both calls got through, the last route
written for the host before the first one names the tag, and the last status
written for the tag before the second one is a proved up; otherwise it is ERR.
-/

namespace HelixProxy.ControlPlane

open Vpn Bus Healthd AclHelper
set_option autoImplicit false

variable {Raw : Type}

def Action.ofHelper (k : Nat) : Action → Bool
  | .getRoute j _ _ => j = k
  | .getStatus j _ => j = k
  | _ => false

/-- The last route written for the host leads through the tunnel. -/
def LastRouteVia (log : List Entry) (host tunnel : Bytes) : Prop :=
  ∃ time inv r, lastRoute log host = some (.route time inv r) ∧ r.tunnel = tunnel

section Reads

variable {json : Codec Raw} {d : Deployment} {s : State Raw}

theorem Inv.getRoute_eq (h : Inv json d s) {host : Bytes} {time : Int} {inv : Compiler.Invocation}
    {r : Route} (hlast : lastRoute s.log host = some (.route time inv r)) :
    Bus.getRoute json s.redis s.now true host = .ok r := by
  have hlive : (Entry.write json d (.route time inv r)).entry.Live s.now := fun _ hd => by cases hd
  refine (getRoute_ok_iff json _ _ _ _ _).mpr ⟨rfl, json.marshalRoute r, ?_, json.route_round_trip r⟩
  rw [h.agrees.get_eq, lastWrite_route, hlast, Option.map_some, Option.bind_some, if_pos hlive]
  rfl

theorem Inv.routeVia_iff (h : Inv json d s) (host tunnel : Bytes) :
    (∃ r, Bus.getRoute json s.redis s.now true host = .ok r ∧ r.tunnel = tunnel) ↔
      LastRouteVia s.log host tunnel := by
  constructor
  · rintro ⟨r, hr, htunnel⟩
    obtain ⟨-, time, inv, hlast, -, -⟩ := h.getRoute_ok hr
    exact ⟨time, inv, r, hlast, htunnel⟩
  · rintro ⟨time, inv, r, hlast, htunnel⟩
    exact ⟨r, h.getRoute_eq hlast, htunnel⟩

/-- A proved status is there to be read, and reads as up. -/
theorem Inv.getStatus_of_proved (h : Inv json d s) {maxAge : Int} {tunnel : Bytes}
    (hproved : StatusProved d s.log tunnel maxAge s.now) :
    (evaluateStatus json tunnel (Expiring.get s.redis s.now (statusKey tunnel)) s.now maxAge).state =
      .up := by
  obtain ⟨time, i, history, p, hlast, -, -, -, hdead, hevidence, hage⟩ := hproved
  have hup := (poll_up_iff (d.healthd i) (loopAfter (d.healthd i) history) p).mpr hevidence
  have hlive : (Entry.write json d (.status time i history p)).entry.Live s.now := by
    intro x hx
    have hdl : deadline time _ = _ := deadline_statusTTL (d.ttl_pos i) (d.ttl_fits i)
    obtain rfl := Option.some.inj (hdl.symm.trans hx)
    exact hdead
  have hget : Expiring.get s.redis s.now (statusKey tunnel) =
      some (json.marshalStatus (poll (d.healthd i) (loopAfter (d.healthd i) history) p)) := by
    rw [h.agrees.get_eq, lastWrite_status, hlast, Option.map_some, Option.bind_some, if_pos hlive]
    rfl
  refine (evaluateStatus_up_iff json _ _ _ _).mpr
    ⟨_, _, hget, json.status_round_trip _, hup, ?_⟩
  rw [poll_checkedAt_of_up hup]
  by_cases hpos : 0 < maxAge
  · exact .inr (hage hpos)
  · exact .inl (by omega)

theorem Inv.status_up_iff (h : Inv json d s) (maxAge : Int) (tunnel : Bytes) (reachable : Bool) :
    (∃ snap, Bus.getStatus json s.redis s.now maxAge reachable tunnel = (snap, false) ∧
        snap.state = .up) ↔
      reachable = true ∧ StatusProved d s.log tunnel maxAge s.now := by
  constructor
  · rintro ⟨snap, hs, hup⟩
    refine ⟨?_, h.getStatus_up hs hup⟩
    cases reachable with
    | true => rfl
    | false => simp [Bus.getStatus] at hs
  · rintro ⟨rfl, hproved⟩
    exact ⟨_, rfl, h.getStatus_of_proved hproved⟩

end Reads

section Between

variable (json : Codec Raw) (d : Deployment)

theorem helpers_step (s : State Raw) {k : Nat} {a : Action} (ha : a.ofHelper k = false) :
    (step json d s a).helpers k = s.helpers k := by
  cases a with
  | getRoute j line reachable =>
    have hj : k ≠ j := fun he => of_decide_eq_false ha he.symm
    simp only [step]
    split <;> simp [State.setLookup, hj]
  | getStatus j reachable =>
    have hj : k ≠ j := fun he => of_decide_eq_false ha he.symm
    simp only [step]
    split <;> simp [State.setLookup, hj]
  | wait => rfl
  | expire => rfl
  | startLoop => rfl
  | compile => rfl
  | beginTick i => simp only [step]; split <;> rfl
  | sample i egress wg probe => simp only [step]; split <;> rfl
  | setStatus i ok =>
    simp only [step]
    split
    · cases ok <;> rfl
    · rfl
  | setRoute j ok =>
    simp only [step]
    split
    · cases ok <;> rfl
    · rfl

theorem helpers_run (s : State Raw) {k : Nat} {actions : List Action}
    (h : ∀ a ∈ actions, a.ofHelper k = false) :
    (actions.foldl (step json d) s).helpers k = s.helpers k := by
  induction actions generalizing s with
  | nil => rfl
  | cons a rest ih =>
    rw [List.foldl_cons, ih _ fun b hb => h b (List.mem_cons_of_mem a hb),
      helpers_step json d s (h a List.mem_cons_self)]

end Between

theorem run_append (json : Codec Raw) (d : Deployment) (start : Int) (as bs : List Action) :
    run json d start (as ++ bs) = bs.foldl (step json d) (run json d start as) := by
  simp [run]

theorem decide_ok_or_err (dec : Decider) (host : Bytes) :
    (∃ tag, dec.decide host = (true, tag)) ∨ dec.decide host = (false, []) := by
  by_cases h : ∃ tag, dec.Routed host tag
  · obtain ⟨tag, htag⟩ := h
    exact .inl ⟨tag, (decide_eq_ok_iff dec host tag).mpr htag⟩
  · exact .inr (decide_eq_err dec host fun tag htag => h ⟨tag, htag⟩)

/-- For every run, every request and all that the other processes do between its
two lookups. -/
theorem reply_exact (json : Codec Raw) (d : Deployment) (start : Int)
    (earlier between : List Action) (k : Nat) (line : Bytes) (routeOK statusOK : Bool)
    (hidle : (run json d start earlier).helpers k = none)
    (hbetween : ∀ a ∈ between, a.ofHelper k = false) :
    let atRoute := run json d start earlier
    let atStatus := run json d start (earlier ++ .getRoute k line routeOK :: between)
    let served := run json d start
      (earlier ++ .getRoute k line routeOK :: between ++ [.getStatus k statusOK])
    let req := parseLine line
    ∃ a, served.answers = a :: atStatus.answers ∧ a.helper = k ∧ a.line = line ∧
      (∀ tag, a.text = formatReply req.channel true tag ↔
        routeOK = true ∧ statusOK = true ∧ req.host ≠ [] ∧ tag ≠ [] ∧
          LastRouteVia atRoute.log req.host tag ∧
          StatusProved d atStatus.log tag (d.maxAge k) atStatus.now) ∧
      ((∀ tag, a.text ≠ formatReply req.channel true tag) →
        a.text = formatReply req.channel false []) := by
  intro atRoute atStatus served req
  have hinv : Inv json d atRoute := inv_run start earlier
  have hinv' : Inv json d atStatus := inv_run start _
  -- the helper still holds the route it has read when it asks for the status
  obtain ⟨l, hl, hline, hroute⟩ : ∃ l : Lookup, atStatus.helpers k = some l ∧ l.line = line ∧
      l.route = Bus.getRoute json atRoute.redis atRoute.now routeOK req.host := by
    have hheld : atStatus.helpers k = (step json d atRoute (.getRoute k line routeOK)).helpers k := by
      simp only [atStatus, run_append, List.foldl_cons]
      exact helpers_run json d _ hbetween
    have hread : (step json d atRoute (.getRoute k line routeOK)).helpers k =
        some ⟨line, atRoute.now, Bus.getRoute json atRoute.redis atRoute.now routeOK req.host,
          atRoute.log⟩ := by
      simp [step, show atRoute.helpers k = none from hidle, State.setLookup, req]
    exact ⟨_, hheld.trans hread, rfl, rfl⟩
  have hserved : served = step json d atStatus (.getStatus k statusOK) := by
    simp only [served, atStatus, run_append, List.foldl_cons, List.foldl_nil]
  refine ⟨⟨k, l.line, l.time, l.log, atStatus.now, atStatus.log,
    reply (l.decider json (d.maxAge k) atStatus statusOK) l.line⟩, ?_, rfl, hline, ?_, ?_⟩
  · rw [hserved]
    simp only [step, hl]
  all_goals simp only [hline]
  · intro tag
    have hok : reply (l.decider json (d.maxAge k) atStatus statusOK) line =
        formatReply req.channel true tag ↔
          (l.decider json (d.maxAge k) atStatus statusOK).Routed req.host tag := by
      rw [← decide_eq_ok_iff, ← decideWithTimeout_eq, Prod.ext_iff]
      constructor
      · intro h
        exact formatReply_ok h
      · rintro ⟨h1, h2⟩
        simp only [reply, show parseLine line = req from rfl, h1, h2]
    rw [hok]
    have hstatus := hinv'.status_up_iff (d.maxAge k) tag statusOK
    constructor
    · rintro ⟨hhost, htag, r, hr, htunnel, hsnap⟩
      have hr : Bus.getRoute json atRoute.redis atRoute.now routeOK req.host = .ok r :=
        hroute.symm.trans hr
      obtain ⟨hrouteOK, -⟩ := (getRoute_ok_iff json _ _ _ _ _).mp hr
      subst hrouteOK
      obtain ⟨hstatusOK, hproved⟩ := hstatus.mp hsnap
      exact ⟨rfl, hstatusOK, hhost, htag, (hinv.routeVia_iff _ _).mp ⟨r, hr, htunnel⟩, hproved⟩
    · rintro ⟨rfl, hstatusOK, hhost, htag, hvia, hproved⟩
      obtain ⟨r, hr, htunnel⟩ := (hinv.routeVia_iff _ _).mpr hvia
      exact ⟨hhost, htag, r, hroute.trans hr, htunnel, hstatus.mpr ⟨hstatusOK, hproved⟩⟩
  · intro hnot
    have hverdict := decide_ok_or_err (l.decider json (d.maxAge k) atStatus statusOK) req.host
    rw [← decideWithTimeout_eq] at hverdict
    rcases hverdict with ⟨tag, htag⟩ | herr
    · exact absurd (by simp only [reply, show parseLine line = req from rfl, htag]) (hnot tag)
    · simp only [reply, show parseLine line = req from rfl, herr]

/-- A tick that publishes up, and a route seeded meanwhile. -/
def crmSeeded : List Action :=
  [.beginTick 0, .compile 0 (Compiler.crmRun true), .setRoute 0 true,
    .sample 0 (some (lit "203.0.113.7")) none .succeeded, .setStatus 0 true]

theorem reply_exact_crm :
    LastRouteVia (run documents euDeployment second crmSeeded).log (lit "crm") (lit "eu") ∧
      StatusProved euDeployment (run documents euDeployment second
        (crmSeeded ++ [.getRoute 0 (lit "7 crm\n") true, .wait 1000000])).log (lit "eu") (60 * second)
        (second + 1000000) := by
  obtain ⟨a, hanswers, -, -, hiff, -⟩ := reply_exact documents euDeployment second crmSeeded
    [.wait 1000000] 0 (lit "7 crm\n") true true rfl (by simp [Action.ofHelper])
  have htexts : (run documents euDeployment second (crmSeeded ++
      [.getRoute 0 (lit "7 crm\n") true, .wait 1000000] ++ [.getStatus 0 true])).answers.map
        Answer.text = [lit "7 OK tag=eu\n"] := by decide
  rw [hanswers, List.map_cons, List.cons.injEq] at htexts
  have hline : parseLine (lit "7 crm\n") = ⟨lit "7", lit "crm"⟩ := by decide
  rw [hline] at hiff
  obtain ⟨-, -, -, -, hvia, hproved⟩ := (hiff (lit "eu")).mp (htexts.1.trans (by decide))
  exact ⟨hvia, hproved⟩

end HelixProxy.ControlPlane
