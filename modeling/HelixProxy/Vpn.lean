import HelixProxy.GoText

/-!
# The data-plane health verdict

`internal/vpn`: the snapshot of one profile and `DecideHealth`. A `time.Time`
is the number of nanoseconds since Go's zero time, as an `Int`, so `IsZero` is a
comparison with `0`; a `time.Duration` is an `Int` of nanoseconds.
-/

namespace HelixProxy.Vpn

set_option autoImplicit false

/-- `t.Sub(u)`: a `time.Duration` stops at the ends of the int64 range. -/
def sub (t u : Int) : Int := max Strconv.minInt64 (min Strconv.maxInt64 (t - u))

def second : Int := 1000000000

/-- `vpn.State`: the three named values, and any other text a decoded snapshot
may carry; the zero value of a Go snapshot has the empty text. -/
inductive State where
  | up
  | down
  | unknown
  | other (text : Bytes)
  deriving DecidableEq, Repr

structure HealthSnapshot where
  profile : Bytes := []
  state : State := .other []
  lastHandshake : Int := 0
  rx : UInt64 := 0
  tx : UInt64 := 0
  egressIP : Bytes := []
  checkedAt : Int := 0
  liveProbeAt : Int := 0
  deriving DecidableEq, Repr

def wgProofFresh (prev cur : HealthSnapshot) (freshness : Int) : Bool :=
  if cur.lastHandshake = 0 then false
  else
    let age := sub cur.checkedAt cur.lastHandshake
    if age < 0 ∨ age > freshness then false else decide (cur.tx > prev.tx)

def liveProbeFresh (cur : HealthSnapshot) (freshness : Int) : Bool :=
  if cur.liveProbeAt = 0 then false
  else
    let age := sub cur.checkedAt cur.liveProbeAt
    decide (age ≥ 0 ∧ age ≤ freshness)

def decideHealth (prev cur : HealthSnapshot) (hostIP : Bytes) (freshness : Int) : State :=
  if freshness ≤ 0 then .down
  else if cur.egressIP = [] then .down
  else if hostIP ≠ [] ∧ cur.egressIP = hostIP then .down
  else if wgProofFresh prev cur freshness then .up
  else if liveProbeFresh cur freshness then .up
  else .down

def EgressOK (egressIP hostIP : Bytes) (freshness : Int) : Prop :=
  0 < freshness ∧ egressIP ≠ [] ∧ (hostIP = [] ∨ egressIP ≠ hostIP)

instance (egressIP hostIP : Bytes) (freshness : Int) :
    Decidable (EgressOK egressIP hostIP freshness) :=
  inferInstanceAs (Decidable (_ ∧ _ ∧ _))

/-- The verdict is up exactly when the egress is usable and one of the two
liveness proofs holds. -/
theorem decideHealth_up_iff (prev cur : HealthSnapshot) (hostIP : Bytes) (freshness : Int) :
    decideHealth prev cur hostIP freshness = .up ↔
      EgressOK cur.egressIP hostIP freshness ∧
        (wgProofFresh prev cur freshness = true ∨ liveProbeFresh cur freshness = true) := by
  unfold decideHealth EgressOK
  by_cases hf : freshness ≤ 0
  · simp [hf]
  by_cases he : cur.egressIP = []
  · simp [he]
  by_cases hh : hostIP ≠ [] ∧ cur.egressIP = hostIP
  · simp [hh.1, hh.2, hf]
  have hh' : hostIP = [] ∨ cur.egressIP ≠ hostIP := by
    by_cases h0 : hostIP = []
    · exact Or.inl h0
    · exact Or.inr fun heq => hh ⟨h0, heq⟩
  have hf' : 0 < freshness := by omega
  simp only [hf, he, hh, if_false, hf', hh', true_and, not_false_eq_true, ne_eq]
  by_cases hw : wgProofFresh prev cur freshness = true
  · simp [hw]
  · by_cases hl : liveProbeFresh cur freshness = true <;> simp [hw, hl]

theorem decideHealth_up_or_down (prev cur : HealthSnapshot) (hostIP : Bytes)
    (freshness : Int) :
    decideHealth prev cur hostIP freshness = .up ∨
      decideHealth prev cur hostIP freshness = .down := by
  unfold decideHealth
  split_ifs <;> simp

theorem decideHealth_baseline {prev prev' : HealthSnapshot} (h : prev.tx = prev'.tx)
    (cur : HealthSnapshot) (hostIP : Bytes) (freshness : Int) :
    decideHealth prev cur hostIP freshness = decideHealth prev' cur hostIP freshness := by
  simp [decideHealth, wgProofFresh, h]

theorem wgProofFresh_iff (prev cur : HealthSnapshot) (freshness : Int) :
    wgProofFresh prev cur freshness = true ↔
      cur.lastHandshake ≠ 0 ∧ 0 ≤ sub cur.checkedAt cur.lastHandshake ∧
        sub cur.checkedAt cur.lastHandshake ≤ freshness ∧ prev.tx < cur.tx := by
  unfold wgProofFresh
  by_cases hz : cur.lastHandshake = 0
  · simp [hz]
  by_cases ha : sub cur.checkedAt cur.lastHandshake < 0 ∨
      sub cur.checkedAt cur.lastHandshake > freshness
  · simp only [hz, if_false, ha, if_true, Bool.false_eq_true, false_iff]
    rintro ⟨-, h0, h1, -⟩
    omega
  · simp only [hz, if_false, ha, decide_eq_true_eq, ne_eq, not_false_eq_true, true_and]
    constructor
    · exact fun ht => ⟨by omega, by omega, ht⟩
    · exact fun ht => ht.2.2

@[simp] theorem sub_self (t : Int) : sub t t = 0 := by
  simp [sub, Strconv.minInt64, Strconv.maxInt64]

theorem liveProbeFresh_at_check {cur : HealthSnapshot} {freshness : Int}
    (h : cur.liveProbeAt = cur.checkedAt) (hf : 0 < freshness) :
    liveProbeFresh cur freshness = true ↔ cur.checkedAt ≠ 0 := by
  by_cases hz : cur.checkedAt = 0
  · simp [liveProbeFresh, h, hz]
  · simp [liveProbeFresh, h, hz, Int.le_of_lt hf]

end HelixProxy.Vpn
