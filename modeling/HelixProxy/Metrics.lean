import HelixProxy.AclHelper
import HelixProxy.Store

/-!
# The health gauge

`internal/api/metrics.go`: the `helix_proxy_vpn_up` gauge of a scrape. The API
reads a status with a freshness window of its own, the helper with the one of its
environment; `WindowsAgree` is what the stored status must satisfy for the two to
give one verdict.
-/

namespace HelixProxy.Api

open AclHelper Bus Store Vpn
set_option autoImplicit false

variable {Raw : Type}

/-- The window `cmd/api` opens Redis with. -/
def apiMaxAge : Int := 60 * second

/-- `envDuration("REDIS_STATUS_MAX_AGE", 0)`; `env` is the duration the variable
holds, if it is set to one. -/
def helperMaxAge (env : Option Int) : Int := env.getD 0

/-- `vpnUpCollector.Collect`: the series of one scrape. A store error yields none. -/
def collect (json : Codec Raw) (profiles : Option Profiles) (r : Redis Raw) (now : Int)
    (reachable : Bool) : List (Bytes × Nat) :=
  match profiles with
  | none => []
  | some ps => ps.rows.map fun p =>
    (p.name, if (getStatus json r now apiMaxAge reachable p.name).1.state = .up then 1 else 0)

/-- A status that is stored and not expired, and says up. -/
def StoredUp (json : Codec Raw) (r : Redis Raw) (now : Int) (profile : Bytes)
    (snap : HealthSnapshot) : Prop :=
  ∃ raw, Expiring.get r now (statusKey profile) = some raw ∧ json.unmarshalStatus raw = some snap ∧
    snap.state = .up

/-- A stored up is on the same side of both windows. For the empty name, which the
helper never accepts, it must be outside that of the API. -/
def WindowsAgree (json : Codec Raw) (r : Redis Raw) (now maxAge : Int) (profile : Bytes) : Prop :=
  ∀ snap, StoredUp json r now profile snap →
    (sub now snap.checkedAt ≤ apiMaxAge ↔
      profile ≠ [] ∧ (maxAge ≤ 0 ∨ sub now snap.checkedAt ≤ maxAge))

theorem getStatus_up_iff (json : Codec Raw) (r : Redis Raw) (now maxAge : Int) (profile : Bytes) :
    (getStatus json r now maxAge true profile).1.state = .up ↔
      ∃ snap, StoredUp json r now profile snap ∧
        (maxAge ≤ 0 ∨ sub now snap.checkedAt ≤ maxAge) := by
  simp only [getStatus, Bool.not_true, Bool.false_eq_true, if_false, evaluateStatus_up_iff, StoredUp]
  constructor
  · rintro ⟨raw, snap, hraw, hsnap, hup, hage⟩
    exact ⟨snap, ⟨raw, hraw, hsnap, hup⟩, hage⟩
  · rintro ⟨snap, ⟨raw, hraw, hsnap, hup⟩, hage⟩
    exact ⟨raw, snap, hraw, hsnap, hup, hage⟩

theorem StoredUp.unique {json : Codec Raw} {r : Redis Raw} {now : Int} {profile : Bytes}
    {snap snap' : HealthSnapshot} (h : StoredUp json r now profile snap)
    (h' : StoredUp json r now profile snap') : snap = snap' := by
  obtain ⟨raw, hraw, hsnap, -⟩ := h
  obtain ⟨raw', hraw', hsnap', -⟩ := h'
  obtain rfl := Option.some.inj (hraw.symm.trans hraw')
  exact Option.some.inj (hsnap.symm.trans hsnap')

theorem gauge_eq_one_iff {json : Codec Raw} {ps : Profiles} {p : VPNProfile} (hp : p ∈ ps.rows)
    (r : Redis Raw) (now : Int) (reachable : Bool) :
    (p.name, 1) ∈ collect json (some ps) r now reachable ↔
      (getStatus json r now apiMaxAge reachable p.name).1.state = .up := by
  simp only [collect, List.mem_map, Prod.mk.injEq]
  constructor
  · rintro ⟨q, -, hname, hval⟩
    rw [hname] at hval
    split at hval
    · assumption
    · cases hval
  · intro hup
    exact ⟨p, hp, rfl, if_pos hup⟩

/-- At any time the gauge of a profile and the helper's answer for a host routed to
it agree exactly when the two windows do on the stored status. -/
theorem gauge_agrees_iff (json : Codec Raw) (ps : Profiles) (p : VPNProfile) (hp : p ∈ ps.rows)
    (r : Redis Raw) (now : Int) (env : Option Int) (host : Bytes) (hhost : host ≠ [])
    (route : Route) (hroute : getRoute json r now true host = .ok route)
    (hnames : route.tunnel = p.name) :
    ((p.name, 1) ∈ collect json (some ps) r now true ↔
      ((Decider.ofRedis json (helperMaxAge env) (r, now, true) (r, now, true)).decide host).1 = true) ↔
    WindowsAgree json r now (helperMaxAge env) p.name := by
  rw [gauge_eq_one_iff hp, decide_ok_iff hhost hroute, hnames, getStatus_up_iff, getStatus_up_iff]
  have hwindow : ∀ age : Int, (apiMaxAge ≤ 0 ∨ age ≤ apiMaxAge) ↔ age ≤ apiMaxAge := by
    intro age
    unfold apiMaxAge second
    omega
  simp only [hwindow]
  constructor
  · intro hagree snap hsnap
    constructor
    · intro hage
      obtain ⟨hne, snap', hsnap', hage'⟩ := hagree.mp ⟨snap, hsnap, hage⟩
      exact ⟨hne, hsnap.unique hsnap' ▸ hage'⟩
    · rintro ⟨hne, hage⟩
      obtain ⟨snap', hsnap', hage'⟩ := hagree.mpr ⟨hne, snap, hsnap, hage⟩
      exact hsnap.unique hsnap' ▸ hage'
  · intro hagree
    constructor
    · rintro ⟨snap, hsnap, hage⟩
      have hboth := (hagree snap hsnap).mp hage
      exact ⟨hboth.1, snap, hsnap, hboth.2⟩
    · rintro ⟨hne, snap, hsnap, hage⟩
      exact ⟨snap, hsnap, (hagree snap hsnap).mpr ⟨hne, hage⟩⟩

def euProfiles : Profiles := ⟨[{ id := lit "eu-1", name := lit "eu" }], by simp, by simp⟩

def crmRoute : Route := ⟨lit "crm", lit "eu", 0, lit "closed"⟩

def upAt1000 : HealthSnapshot := { profile := lit "eu", state := .up, checkedAt := 1000 * second }

/-- One route, and one up written at 1000 s with a TTL of 300 s. -/
def crmBus : Redis Document :=
  Expiring.put (Expiring.put Expiring.empty (routeWrite documents 0 crmRoute))
    (statusWrite documents (1000 * second) upAt1000 300)

theorem gauge_agrees_fresh :
    (lit "eu", 1) ∈ collect documents (some euProfiles) crmBus (1030 * second) true ↔
      ((Decider.ofRedis documents (helperMaxAge none) (crmBus, 1030 * second, true)
        (crmBus, 1030 * second, true)).decide (lit "crm")).1 = true := by
  refine (gauge_agrees_iff documents euProfiles { id := lit "eu-1", name := lit "eu" }
    List.mem_cons_self crmBus (1030 * second) none (lit "crm") (by decide) crmRoute rfl rfl).mpr ?_
  rintro snap ⟨raw, hraw, hsnap, -⟩
  have hget : Expiring.get crmBus (1030 * second) (statusKey (lit "eu")) = some (.status upAt1000) := by
    decide
  obtain rfl := Option.some.inj (hraw.symm.trans hget)
  obtain rfl := Option.some.inj hsnap
  decide

/-- A hundred seconds later the TTL still holds the value, but the API's window
is over: the gauge shows 0 while the helper lets requests through. -/
theorem gauge_disagrees_stale :
    ¬ ∀ (ps : Profiles) (p : VPNProfile) (r : Redis Document) (now : Int) (env : Option Int)
      (host : Bytes) (route : Route), p ∈ ps.rows → host ≠ [] →
      getRoute documents r now true host = .ok route → route.tunnel = p.name →
      ((p.name, 1) ∈ collect documents (some ps) r now true ↔
        ((Decider.ofRedis documents (helperMaxAge env) (r, now, true) (r, now, true)).decide host).1
          = true) := by
  intro h
  have hx := h euProfiles { id := lit "eu-1", name := lit "eu" } crmBus (1100 * second) none
    (lit "crm") crmRoute List.mem_cons_self (by decide) rfl rfl
  revert hx
  decide

end HelixProxy.Api
