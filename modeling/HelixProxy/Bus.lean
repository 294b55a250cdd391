import HelixProxy.Library.Expiring
import HelixProxy.Vpn

/-!
# The Redis state bus

`internal/redis/client.go` over a store with expiring keys. Values are what
`encoding/json` wrote; a `Codec` is that encoding with its round trip, the only
thing the client relies on. A call that fails changes nothing.
-/

namespace HelixProxy.Bus

open Vpn
set_option autoImplicit false

structure Route where
  target : Bytes
  tunnel : Bytes
  tier : Int
  breakerState : Bytes
  deriving DecidableEq, Repr

structure Event where
  profileID : Bytes
  state : State
  deriving DecidableEq, Repr

/-- `encoding/json` on the two value types stored in Redis. -/
structure Codec (Raw : Type) where
  marshalStatus : HealthSnapshot → Raw
  unmarshalStatus : Raw → Option HealthSnapshot
  marshalRoute : Route → Raw
  unmarshalRoute : Raw → Option Route
  status_round_trip : ∀ s, unmarshalStatus (marshalStatus s) = some s
  route_round_trip : ∀ r, unmarshalRoute (marshalRoute r) = some r

inductive Document where
  | status (snap : HealthSnapshot)
  | route (r : Route)
  | other (text : Bytes)
  deriving DecidableEq

def documents : Codec Document where
  marshalStatus := .status
  unmarshalStatus
    | .status snap => some snap
    | _ => none
  marshalRoute := .route
  unmarshalRoute
    | .route r => some r
    | _ => none
  status_round_trip _ := rfl
  route_round_trip _ := rfl

def statusKeyPrefix : Bytes := lit "vpn:status:"
def routeKeyPrefix : Bytes := lit "route:"

def statusKey (profile : Bytes) : Bytes := statusKeyPrefix ++ profile
def routeKey (target : Bytes) : Bytes := routeKeyPrefix ++ target

theorem statusKey_inj {p q : Bytes} : statusKey p = statusKey q ↔ p = q := by simp [statusKey]

theorem routeKey_inj {p q : Bytes} : routeKey p = routeKey q ↔ p = q := by simp [routeKey]

theorem statusKey_ne_routeKey (p t : Bytes) : statusKey p ≠ routeKey t := by
  intro h
  have hhead : (statusKey p).head? = (routeKey t).head? := by rw [h]
  have hs : statusKeyPrefix = 118 :: statusKeyPrefix.tail := by decide
  have hr : routeKeyPrefix = 114 :: routeKeyPrefix.tail := by decide
  rw [statusKey, routeKey, hs, hr] at hhead
  simp at hhead

abbrev Redis (Raw : Type) := Expiring.Store Bytes Raw
abbrev Write (Raw : Type) := Expiring.Write Bytes Raw

/-- An int64 product: `int64` arithmetic wraps. -/
def wrapInt64 (n : Int) : Int := (n + 2 ^ 63) % 2 ^ 64 - 2 ^ 63

/-- The expiry `SetStatus` hands to `Set`; 0 means none was asked for. -/
def statusTTL (ttlSeconds : Int) : Int :=
  if ttlSeconds > 0 then wrapInt64 (ttlSeconds * second) else 0

/-- go-redis stores without expiry when the duration is not positive. -/
def deadline (now ttl : Int) : Option Int := if ttl > 0 then some (now + ttl) else none

variable {Raw : Type}

def statusWrite (json : Codec Raw) (now : Int) (snap : HealthSnapshot) (ttlSeconds : Int) :
    Write Raw where
  time := now
  key := statusKey snap.profile
  entry := ⟨json.marshalStatus snap, deadline now (statusTTL ttlSeconds)⟩

def routeWrite (json : Codec Raw) (now : Int) (r : Route) : Write Raw where
  time := now
  key := routeKey r.target
  entry := ⟨json.marshalRoute r, none⟩

/-- `evaluateStatus`; `raw` is `none` when the key was not found. -/
def evaluateStatus (json : Codec Raw) (profile : Bytes) (raw : Option Raw) (now maxAge : Int) :
    HealthSnapshot :=
  match raw.map json.unmarshalStatus with
  | none => { profile, state := .down, checkedAt := now }
  | some none => { profile, state := .down, checkedAt := now }
  | some (some snap) =>
    let snap := if snap.profile = [] then { snap with profile } else snap
    if snap.state ≠ .up then snap
    else if maxAge > 0 ∧ sub now snap.checkedAt > maxAge then { snap with state := .down }
    else snap

inductive RouteError where
  | notFound
  | transport
  | unmarshal
  deriving DecidableEq, Repr

/-- `GetRoute`; `reachable` is whether the call got an answer from Redis. -/
def getRoute (json : Codec Raw) (r : Redis Raw) (now : Int) (reachable : Bool) (target : Bytes) :
    Except RouteError Route :=
  if !reachable then .error .transport
  else match Expiring.get r now (routeKey target) with
    | none => .error .notFound
    | some raw => match json.unmarshalRoute raw with
      | none => .error .unmarshal
      | some route => .ok route

def getStatus (json : Codec Raw) (r : Redis Raw) (now maxAge : Int) (reachable : Bool)
    (profile : Bytes) : HealthSnapshot × Bool :=
  if !reachable then (evaluateStatus json profile none now maxAge, true)
  else (evaluateStatus json profile (Expiring.get r now (statusKey profile)) now maxAge, false)

theorem getRoute_ok_iff (json : Codec Raw) (r : Redis Raw) (now : Int) (reachable : Bool)
    (target : Bytes) (route : Route) :
    getRoute json r now reachable target = .ok route ↔
      reachable = true ∧ ∃ raw, Expiring.get r now (routeKey target) = some raw ∧
        json.unmarshalRoute raw = some route := by
  unfold getRoute
  cases reachable with
  | false => simp
  | true =>
    cases hg : Expiring.get r now (routeKey target) with
    | none => simp
    | some raw => cases hu : json.unmarshalRoute raw <;> simp [hu]

/-- The only way a status reads as up. -/
theorem evaluateStatus_up_iff (json : Codec Raw) (profile : Bytes) (raw : Option Raw)
    (now maxAge : Int) :
    (evaluateStatus json profile raw now maxAge).state = .up ↔
      ∃ doc snap, raw = some doc ∧ json.unmarshalStatus doc = some snap ∧ snap.state = .up ∧
        (maxAge ≤ 0 ∨ sub now snap.checkedAt ≤ maxAge) := by
  cases raw with
  | none => simp [evaluateStatus]
  | some doc =>
    cases hu : json.unmarshalStatus doc with
    | none => simp [evaluateStatus, hu]
    | some snap =>
      have hcheck : ∀ s : HealthSnapshot, s.state = snap.state → s.checkedAt = snap.checkedAt →
          ((if s.state ≠ .up then s
            else if maxAge > 0 ∧ sub now s.checkedAt > maxAge then { s with state := .down }
            else s).state = .up ↔
          snap.state = .up ∧ (maxAge ≤ 0 ∨ sub now snap.checkedAt ≤ maxAge)) := by
        intro s hs hc
        rw [← hs, ← hc]
        by_cases hup : s.state = .up
        · by_cases hold : maxAge > 0 ∧ sub now s.checkedAt > maxAge
          · have : ¬ (maxAge ≤ 0 ∨ sub now s.checkedAt ≤ maxAge) := by omega
            simp [hup, hold, this]
          · have : maxAge ≤ 0 ∨ sub now s.checkedAt ≤ maxAge := by omega
            simp [hup, hold, this]
        · simp [hup]
      have hmain := hcheck (if snap.profile = [] then { snap with profile } else snap)
        (by split <;> rfl) (by split <;> rfl)
      simpa [evaluateStatus, hu] using hmain

theorem deadline_statusTTL {now ttlSeconds : Int} (h1 : 1 ≤ ttlSeconds)
    (h2 : ttlSeconds * second ≤ Strconv.maxInt64) :
    deadline now (statusTTL ttlSeconds) = some (now + ttlSeconds * second) := by
  unfold second Strconv.maxInt64 at h2
  have hw : wrapInt64 (ttlSeconds * second) = ttlSeconds * second := by
    unfold wrapInt64 second
    omega
  have hpos : ttlSeconds > 0 := by omega
  rw [statusTTL, if_pos hpos, hw, deadline, if_pos]
  unfold second
  omega

/-- The stored status is an up whose time lies in the window that ends now. -/
def FreshUp (json : Codec Raw) (raw : Option Raw) (now maxAge : Int) : Prop :=
  ∃ doc snap, raw = some doc ∧ json.unmarshalStatus doc = some snap ∧ snap.state = .up ∧
    now - maxAge ≤ snap.checkedAt ∧ snap.checkedAt ≤ now

/-- The guard has no lower end, and at the upper end of a `time.Duration` no upper
end either, since the age it compares stops there. -/
theorem sub_le_iff {t u maxAge : Int} (h : 0 < maxAge) :
    sub t u ≤ maxAge ↔ t - u ≤ maxAge ∨ Strconv.maxInt64 ≤ maxAge := by
  unfold sub Strconv.minInt64 Strconv.maxInt64
  omega

/-- An up is reported for fresh ones only, exactly when no stored up is ahead of
the reader's clock or, under the longest window, older than it. -/
theorem freshness_guard_iff (json : Codec Raw) (profile : Bytes) (raw : Option Raw)
    (now maxAge : Int) (hage : 0 < maxAge) :
    ((evaluateStatus json profile raw now maxAge).state = .up → FreshUp json raw now maxAge) ↔
      ∀ doc snap, raw = some doc → json.unmarshalStatus doc = some snap → snap.state = .up →
        snap.checkedAt ≤ now ∧ (Strconv.maxInt64 ≤ maxAge → now - snap.checkedAt ≤ maxAge) := by
  rw [evaluateStatus_up_iff]
  constructor
  · intro hlaw doc snap hraw hdoc hup
    -- in both cases the guard lets the status through
    have hfresh : sub now snap.checkedAt ≤ maxAge → snap.checkedAt ≤ now ∧
        now - snap.checkedAt ≤ maxAge := by
      intro hle
      obtain ⟨doc', snap', hraw', hdoc', -, hlow, hhigh⟩ :=
        hlaw ⟨doc, snap, hraw, hdoc, hup, .inr hle⟩
      obtain rfl := Option.some.inj (hraw.symm.trans hraw')
      obtain rfl := Option.some.inj (hdoc.symm.trans hdoc')
      omega
    rw [sub_le_iff hage] at hfresh
    constructor
    · by_contra hahead
      have := hfresh (.inl (by omega))
      omega
    · intro hmax
      exact (hfresh (.inr hmax)).2
  · rintro hstored ⟨doc, snap, hraw, hdoc, hup, hguard⟩
    obtain ⟨hahead, hold⟩ := hstored doc snap hraw hdoc hup
    have hle := (sub_le_iff hage).mp (hguard.resolve_left (by omega))
    refine ⟨doc, snap, hraw, hdoc, hup, ?_, hahead⟩
    rcases hle with hle | hle
    · omega
    · have := hold hle
      omega

theorem freshness_guard_recent : FreshUp documents
    (some (.status { state := .up, checkedAt := 990 * second })) (1000 * second) (60 * second) := by
  have hstored : ∀ doc snap,
      some (Document.status { state := .up, checkedAt := 990 * second }) = some doc →
      documents.unmarshalStatus doc = some snap → snap.state = .up →
      snap.checkedAt ≤ 1000 * second ∧
        (Strconv.maxInt64 ≤ 60 * second → 1000 * second - snap.checkedAt ≤ 60 * second) := by
    rintro doc snap hdoc hsnap -
    cases hdoc
    cases hsnap
    decide
  exact (freshness_guard_iff documents (lit "eu") _ (1000 * second) (60 * second) (by decide)).mpr
    hstored (by decide)

/-- A writer whose clock is an hour ahead. -/
theorem freshness_guard_ahead :
    ¬∀ (profile : Bytes) (raw : Option Document) (now maxAge : Int), 0 < maxAge →
      (evaluateStatus documents profile raw now maxAge).state = .up →
        FreshUp documents raw now maxAge := by
  intro h
  obtain ⟨doc, snap, hraw, hdoc, -, -, hle⟩ := h (lit "eu")
    (some (.status { state := .up, checkedAt := 4600 * second })) (1000 * second) (60 * second)
    (by decide) (by decide)
  cases hraw
  cases hdoc
  exact absurd hle (by decide)

end HelixProxy.Bus
