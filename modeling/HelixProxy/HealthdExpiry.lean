import HelixProxy.Bus
import HelixProxy.Healthd
import HelixProxy.Library.Binary64

/-!
# The expiry of a published status

`loadConfig` of `cmd/healthd` as far as the poll loop reads it, and the expiry that
`SetStatus` makes of its seconds. A duration is an int64 of nanoseconds: the product
is the one that was meant up to 9223372036 seconds.
-/

namespace HelixProxy.Healthd

open Binary64 Bus Vpn
set_option autoImplicit false

/-- The variables `loadConfig` reads. A duration is what `time.ParseDuration` makes of
the text. -/
structure Environment where
  hostIP : Bytes := []
  pollInterval : Option Int := none
  freshness : Option Int := none
  ttlSeconds : Bytes := []

def parseDuration (parsed : Option Int) (default : Int) : Int :=
  match parsed with
  | some d => if d > 0 then d else default
  | none => default

/-- `Duration.Seconds`, a float64. -/
def seconds (d : Int) : ℚ := nearest ((d / second : Int) + nearest ((d % second : Int) / second))

/-- Three poll intervals, so that a missed poll expires the key. -/
def derivedTTL (interval : Int) : Int :=
  let ttl := ⌊nearest (3 * seconds interval)⌋
  if ttl < 1 then 1 else ttl

def loadConfig (env : Environment) (profile : Bytes) : Config where
  profile
  hostIP := env.hostIP
  interval := parseDuration env.pollInterval (5 * second)
  freshness := parseDuration env.freshness (180 * second)
  ttlSeconds := match Strconv.atoi env.ttlSeconds with
    | some v => if v > 0 then v else derivedTTL (parseDuration env.pollInterval (5 * second))
    | none => derivedTTL (parseDuration env.pollInterval (5 * second))

/-- The longest expiry whose nanoseconds are an int64. -/
def maxTTLSeconds : Int := 9223372036

theorem derivedTTL_pos (interval : Int) : 1 ≤ derivedTTL interval := by
  simp only [derivedTTL]
  split <;> omega

theorem ttlSeconds_pos (env : Environment) (profile : Bytes) :
    1 ≤ (loadConfig env profile).ttlSeconds := by
  have hderived := derivedTTL_pos (parseDuration env.pollInterval (5 * second))
  simp only [loadConfig]
  split
  · split
    · next hv => exact hv
    · exact hderived
  · exact hderived

theorem fraction_bounds (d : Int) :
    0 ≤ ((d % second : Int) : ℚ) / second ∧ ((d % second : Int) : ℚ) / second ≤ 1 := by
  have hrest : 0 ≤ d % second ∧ d % second ≤ second := by
    unfold second
    omega
  have hpos : (0 : ℚ) < (second : Int) := by decide
  constructor
  · apply div_nonneg _ hpos.le
    exact_mod_cast hrest.1
  · rw [div_le_one hpos]
    exact_mod_cast hrest.2

/-- As a float64 a duration stays between the whole seconds around it. -/
theorem seconds_bounds {d : Int} {a : ℕ} (ha : d / second = a) (hlimit : a ≤ 9223372036) :
    (a : ℚ) ≤ seconds d ∧ seconds d ≤ (a + 1 : ℕ) := by
  obtain ⟨h0, h1⟩ := fraction_bounds d
  have hinner := @nearest_between _ 0 1 (by simpa using h0) (by simpa using h1) (by norm_num)
  push_cast at hinner
  unfold seconds
  rw [ha]
  apply nearest_between _ _ (by omega)
  · push_cast
    linarith
  · push_cast
    linarith

section Interval

variable {d : Int} (hd : 0 < d) (hmax : d ≤ Strconv.maxInt64)
include hd hmax

theorem wholeSeconds : ∃ a : ℕ, d / second = a ∧ a ≤ 9223372036 := by
  unfold Strconv.maxInt64 at hmax
  refine ⟨(d / second).toNat, ?_, ?_⟩ <;>
    · unfold second
      omega

theorem derivedTTL_bounds :
    3 * (d / second) ≤ derivedTTL d ∧ derivedTTL d ≤ 3 * (d / second + 1) := by
  obtain ⟨a, ha, hlimit⟩ := wholeSeconds hd hmax
  obtain ⟨hlow, hhigh⟩ := seconds_bounds ha hlimit
  push_cast at hhigh
  have hthree := @nearest_between (3 * seconds d) (3 * a) (3 * (a + 1))
    (by push_cast; linarith) (by push_cast; linarith) (by omega)
  have hfloor : (3 * a : ℤ) ≤ ⌊nearest (3 * seconds d)⌋ := by
    apply Int.le_floor.mpr
    exact_mod_cast hthree.1
  have hceil : ⌊nearest (3 * seconds d)⌋ ≤ (3 * (a + 1) : ℤ) := by
    have hcast : (⌊nearest (3 * seconds d)⌋ : ℚ) ≤ (3 * (a + 1) : ℕ) :=
      le_trans (Int.floor_le _) hthree.2
    exact_mod_cast hcast
  simp only [derivedTTL, ha]
  split <;> omega

/-- The TTL derived from a poll interval is in range for intervals of up to some 97
years, and out of it from the next second on. -/
theorem derivedTTL_range :
    (d < 3074457345 * second → derivedTTL d ≤ maxTTLSeconds) ∧
      (3074457346 * second ≤ d → maxTTLSeconds < derivedTTL d) := by
  have hbounds := derivedTTL_bounds hd hmax
  unfold maxTTLSeconds second at *
  omega

end Interval

/-- The status is written with an expiry, of exactly the seconds it was given. -/
structure StatusExpires {Raw : Type} (json : Codec Raw) (now : Int) (snap : HealthSnapshot)
    (ttlSeconds : Int) : Prop where
  positive : 0 < statusTTL ttlSeconds
  exact : statusTTL ttlSeconds = ttlSeconds * second
  expires : (statusWrite json now snap ttlSeconds).entry.deadline = some (now + ttlSeconds * second)

/-- For every environment: what is published expires as configured exactly when the
seconds are in range. -/
theorem status_expires_iff {Raw : Type} (json : Codec Raw) (now : Int) (snap : HealthSnapshot)
    (env : Environment) (profile : Bytes) :
    StatusExpires json now snap (loadConfig env profile).ttlSeconds ↔
      (loadConfig env profile).ttlSeconds ≤ maxTTLSeconds := by
  have hpos := ttlSeconds_pos env profile
  generalize (loadConfig env profile).ttlSeconds = ttl at hpos ⊢
  have hgt : ttl > 0 := by omega
  have hproduct : statusTTL ttl = wrapInt64 (ttl * second) := if_pos hgt
  constructor
  · intro h
    have hexact := h.exact
    rw [hproduct] at hexact
    unfold wrapInt64 second at hexact
    unfold maxTTLSeconds
    omega
  · intro hle
    have hexact : statusTTL ttl = ttl * second := by
      rw [hproduct]
      unfold maxTTLSeconds at hle
      unfold wrapInt64 second
      omega
    have hpositive : 0 < statusTTL ttl := by
      rw [hexact]
      unfold second
      omega
    refine ⟨hpositive, hexact, ?_⟩
    rw [statusWrite, deadline, if_pos hpositive, hexact]

/-- One second more than a duration can hold: the key is stored for good. -/
theorem status_never_expires :
    (loadConfig { ttlSeconds := lit "9223372037" } (lit "eu")).ttlSeconds = 9223372037 ∧
      (statusWrite documents 0 { state := .up } 9223372037).entry.deadline = none ∧
      ¬StatusExpires documents 0 { state := .up } 9223372037 := by
  have hnone : (statusWrite documents 0 { state := .up } 9223372037).entry.deadline = none := by decide
  refine ⟨by decide, hnone, fun h => ?_⟩
  have hexpires := h.expires
  rw [hnone] at hexpires
  cases hexpires

end HelixProxy.Healthd
