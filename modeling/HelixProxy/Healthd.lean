import HelixProxy.Vpn

/-!
# The per-profile poll loop of healthd

`cmd/healthd`: one tick samples the tunnel, decides, publishes, and advances the
tx baseline. The three blocking calls of a sample enter as their outcomes.
-/

namespace HelixProxy.Healthd

open Vpn
set_option autoImplicit false

/-- The fields of `config` a profile's loop reads. -/
structure Config where
  profile : Bytes
  hostIP : Bytes := []
  interval : Int := 5 * second
  freshness : Int := 180 * second
  ttlSeconds : Int := 15

structure WgReading where
  rx : UInt64
  tx : UInt64
  latest : Int
  deriving DecidableEq, Repr

inductive Probe where
  | disabled
  | failed
  | succeeded
  deriving DecidableEq, Repr

/-- What the calls of one tick did: `egress` and `wg` are `none` when the call
failed, `failedAt` is the clock when a failed sample is reported. -/
structure Poll where
  startedAt : Int
  egress : Option Bytes
  wg : Option WgReading := none
  probe : Probe := .disabled
  failedAt : Int := startedAt

def sampled (profile : Bytes) (p : Poll) (egress : Bytes) : HealthSnapshot :=
  let snap : HealthSnapshot := { profile, checkedAt := p.startedAt, egressIP := egress }
  let snap := match p.wg with
    | some r => { snap with rx := r.rx, tx := r.tx, lastHandshake := r.latest }
    | none => snap
  match p.probe with
  | .succeeded => { snap with liveProbeAt := snap.checkedAt }
  | _ => snap

/-- `liveSampler.sample`; a failed egress call is its only error. -/
def sample (profile : Bytes) (p : Poll) : Option HealthSnapshot :=
  p.egress.map (sampled profile p)

def pollOnce (c : Config) (prev : HealthSnapshot) (result : Option HealthSnapshot)
    (failedAt : Int) : HealthSnapshot :=
  match result with
  | none => { profile := c.profile, state := .down, checkedAt := failedAt }
  | some cur => { cur with state := decideHealth prev cur c.hostIP c.freshness }

structure Loop where
  prev : HealthSnapshot := {}
  lastReported : State := .unknown

def advances (cur : HealthSnapshot) : Bool :=
  cur.state == .up || cur.tx > 0 || cur.lastHandshake != 0

/-- The end of a tick: what the loop remembers of the snapshot it decided. -/
def Loop.record (l : Loop) (cur : HealthSnapshot) : Loop where
  prev := if advances cur then cur else l.prev
  lastReported := if cur.state ≠ l.lastReported then cur.state else l.lastReported

def poll (c : Config) (l : Loop) (p : Poll) : HealthSnapshot :=
  pollOnce c l.prev (sample c.profile p) p.failedAt

def tick (c : Config) (l : Loop) (p : Poll) : Loop := l.record (poll c l p)

/-- The loop variables after the ticks of `history`, oldest first. -/
def loopAfter (c : Config) (history : List Poll) : Loop := history.foldl (tick c) {}

@[simp] theorem loopAfter_concat (c : Config) (history : List Poll) (p : Poll) :
    loopAfter c (history ++ [p]) = tick c (loopAfter c history) p := by simp [loopAfter]

@[simp] theorem sampled_egressIP (profile : Bytes) (p : Poll) (e : Bytes) :
    (sampled profile p e).egressIP = e := by
  cases hw : p.wg <;> cases hp : p.probe <;> simp [sampled, hw, hp]

@[simp] theorem sampled_profile (profile : Bytes) (p : Poll) (e : Bytes) :
    (sampled profile p e).profile = profile := by
  cases hw : p.wg <;> cases hp : p.probe <;> simp [sampled, hw, hp]

@[simp] theorem sampled_checkedAt (profile : Bytes) (p : Poll) (e : Bytes) :
    (sampled profile p e).checkedAt = p.startedAt := by
  cases hw : p.wg <;> cases hp : p.probe <;> simp [sampled, hw, hp]

theorem sampled_tx (profile : Bytes) (p : Poll) (e : Bytes) :
    (sampled profile p e).tx = (p.wg.map WgReading.tx).getD 0 := by
  cases hw : p.wg <;> cases hp : p.probe <;> simp [sampled, hw, hp]

theorem sampled_lastHandshake (profile : Bytes) (p : Poll) (e : Bytes) :
    (sampled profile p e).lastHandshake = (p.wg.map WgReading.latest).getD 0 := by
  cases hw : p.wg <;> cases hp : p.probe <;> simp [sampled, hw, hp]

theorem sampled_liveProbeAt (profile : Bytes) (p : Poll) (e : Bytes) :
    (sampled profile p e).liveProbeAt = if p.probe = .succeeded then p.startedAt else 0 := by
  cases hw : p.wg <;> cases hp : p.probe <;> simp [sampled, hw, hp]

theorem sampled_liveProbeFresh (profile : Bytes) (p : Poll) (e : Bytes) {freshness : Int}
    (hf : 0 < freshness) :
    liveProbeFresh (sampled profile p e) freshness = true ↔
      p.probe = .succeeded ∧ p.startedAt ≠ 0 := by
  by_cases hp : p.probe = .succeeded
  · rw [liveProbeFresh_at_check (by simp [sampled_liveProbeAt, hp]) hf]
    simp [hp]
  · simp [liveProbeFresh, sampled_liveProbeAt, hp]

theorem pollOnce_profile (c : Config) (prev : HealthSnapshot) (p : Poll) (failedAt : Int) :
    (pollOnce c prev (sample c.profile p) failedAt).profile = c.profile := by
  cases he : p.egress <;> simp [sample, pollOnce, he]

def WgProof (c : Config) (prev : HealthSnapshot) (p : Poll) : Prop :=
  ∃ r, p.wg = some r ∧ r.latest ≠ 0 ∧ 0 ≤ sub p.startedAt r.latest ∧
    sub p.startedAt r.latest ≤ c.freshness ∧ prev.tx < r.tx

/-- What one tick must have seen to call its tunnel up. -/
def Evidence (c : Config) (prev : HealthSnapshot) (p : Poll) : Prop :=
  ∃ egress, p.egress = some egress ∧ EgressOK egress c.hostIP c.freshness ∧
    (WgProof c prev p ∨ p.probe = .succeeded ∧ p.startedAt ≠ 0)

theorem sampled_wgProofFresh (c : Config) (prev : HealthSnapshot) (p : Poll) (e : Bytes) :
    wgProofFresh prev (sampled c.profile p e) c.freshness = true ↔ WgProof c prev p := by
  rw [wgProofFresh_iff, sampled_lastHandshake, sampled_checkedAt, sampled_tx]
  cases hw : p.wg with
  | none => simp [WgProof, hw]
  | some r => simp [WgProof, hw]

theorem poll_up_iff (c : Config) (l : Loop) (p : Poll) :
    (poll c l p).state = .up ↔ Evidence c l.prev p := by
  unfold Evidence
  cases he : p.egress with
  | none => simp [poll, sample, pollOnce, he]
  | some egress =>
    simp only [poll, sample, pollOnce, he, Option.map_some, decideHealth_up_iff, sampled_egressIP,
      sampled_wgProofFresh, Option.some.injEq, exists_eq_left']
    exact and_congr_right fun hok => by rw [sampled_liveProbeFresh c.profile p egress hok.1]

theorem poll_checkedAt_of_up {c : Config} {l : Loop} {p : Poll} (h : (poll c l p).state = .up) :
    (poll c l p).checkedAt = p.startedAt := by
  obtain ⟨egress, he, -⟩ := (poll_up_iff c l p).mp h
  simp [poll, sample, pollOnce, he]

end HelixProxy.Healthd
