import HelixProxy.Healthd

/-!
# The tx baseline against the real wg readings

`runProfile` advances its baseline on a condition about the decided snapshot,
not on whether wg was read. `KeepsBaseline` is the exact condition under which
one tick leaves the baseline at the last real reading.
-/

namespace HelixProxy.Healthd

open Vpn
set_option autoImplicit false

/-- The wg reading of a tick; after a failed egress call wg is not sampled. -/
def Poll.reading (p : Poll) : Option WgReading := p.egress.bind fun _ => p.wg

/-- The tx of the last tick of `history` whose wg sample succeeded, 0 if none. -/
def lastTx (history : List Poll) : UInt64 :=
  ((history.filterMap Poll.reading).getLast?.map WgReading.tx).getD 0

theorem lastTx_concat (history : List Poll) (p : Poll) :
    lastTx (history ++ [p]) = (p.reading.map WgReading.tx).getD (lastTx history) := by
  cases hr : p.reading <;> simp [lastTx, List.filterMap_append, hr]

def ProbeUp (c : Config) (p : Poll) (egress : Bytes) : Prop :=
  EgressOK egress c.hostIP c.freshness ∧ p.probe = .succeeded ∧ p.startedAt ≠ 0

instance (c : Config) (p : Poll) (egress : Bytes) : Decidable (ProbeUp c p egress) :=
  inferInstanceAs (Decidable (_ ∧ _ ∧ _))

/-- With `b` the last real reading: a tick without a wg reading that the probe
makes up, or with an all-zero reading that it does not, needs `b = 0`. -/
def KeepsBaseline (c : Config) (b : UInt64) (p : Poll) : Prop :=
  match p.egress, p.wg with
  | none, _ => True
  | some egress, none => ProbeUp c p egress → b = 0
  | some egress, some r => r.tx = 0 → r.latest = 0 → ¬ ProbeUp c p egress → b = 0

instance (c : Config) (b : UInt64) (p : Poll) : Decidable (KeepsBaseline c b p) := by
  unfold KeepsBaseline
  split <;> infer_instance

def verdictFrom (c : Config) (b : UInt64) (p : Poll) (egress : Bytes) : State :=
  decideHealth { tx := b } (sampled c.profile p egress) c.hostIP c.freshness

theorem poll_of_egress (c : Config) (l : Loop) {p : Poll} {egress : Bytes}
    (he : p.egress = some egress) :
    poll c l p = { sampled c.profile p egress with
      state := verdictFrom c l.prev.tx p egress } := by
  simp only [poll, sample, he, Option.map_some, pollOnce, verdictFrom]
  rw [@decideHealth_baseline l.prev { tx := l.prev.tx } rfl]

theorem poll_of_failed_egress (c : Config) (l : Loop) {p : Poll} (he : p.egress = none) :
    poll c l p = { profile := c.profile, state := .down, checkedAt := p.failedAt } := by
  simp [poll, sample, he, pollOnce]

theorem verdictFrom_no_handshake (c : Config) (b : UInt64) (p : Poll) (egress : Bytes)
    (h : (p.wg.map WgReading.latest).getD 0 = 0) :
    verdictFrom c b p egress = .up ↔ ProbeUp c p egress := by
  have hw : wgProofFresh { tx := b } (sampled c.profile p egress) c.freshness = false := by
    simp [wgProofFresh, sampled_lastHandshake, h]
  rw [verdictFrom, decideHealth_up_iff, hw, sampled_egressIP]
  constructor
  · rintro ⟨he, hl⟩
    simp only [Bool.false_eq_true, false_or] at hl
    exact ⟨he, (sampled_liveProbeFresh c.profile p egress he.1).mp hl⟩
  · rintro ⟨he, hp⟩
    exact ⟨he, Or.inr ((sampled_liveProbeFresh c.profile p egress he.1).mpr hp)⟩

theorem advances_iff (cur : HealthSnapshot) :
    advances cur = true ↔ cur.state = .up ∨ cur.tx > 0 ∨ cur.lastHandshake ≠ 0 := by
  simp [advances, or_assoc]

theorem uint64_pos_iff {x : UInt64} : x > 0 ↔ x ≠ 0 := by
  simp [UInt64.pos_iff_ne_zero]

/-- One tick leaves the baseline at the last real reading exactly when
`KeepsBaseline` holds of it. -/
theorem tick_baseline_iff (c : Config) (l : Loop) (p : Poll) :
    (tick c l p).prev.tx = (p.reading.map WgReading.tx).getD l.prev.tx ↔
      KeepsBaseline c l.prev.tx p := by
  cases he : p.egress with
  | none =>
    have hcur := poll_of_failed_egress c l he
    simp [tick, Loop.record, hcur, advances, Poll.reading, he, KeepsBaseline]
  | some egress =>
    have hcur := poll_of_egress c l he
    have htx : (poll c l p).tx = (p.wg.map WgReading.tx).getD 0 := by
      rw [hcur]; exact sampled_tx _ _ _
    have hhs : (poll c l p).lastHandshake = (p.wg.map WgReading.latest).getD 0 := by
      rw [hcur]; exact sampled_lastHandshake _ _ _
    have hst : (poll c l p).state = verdictFrom c l.prev.tx p egress := by rw [hcur]
    cases hw : p.wg with
    | none =>
      have hup := verdictFrom_no_handshake c l.prev.tx p egress (by simp [hw])
      rw [hw] at htx hhs
      -- without a reading only a successful probe makes the loop advance
      by_cases hpu : ProbeUp c p egress
      · have ha : advances (poll c l p) = true :=
          (advances_iff _).mpr (Or.inl (hst.trans (hup.mpr hpu)))
        simp [tick, Loop.record, ha, htx, Poll.reading, he, hw, KeepsBaseline, hpu, eq_comm]
      · have ha : ¬ advances (poll c l p) = true := by
          rw [advances_iff, hst, hup, htx, hhs]
          simp [hpu]
        simp [tick, Loop.record, ha, Poll.reading, he, hw, KeepsBaseline, hpu]
    | some r =>
      rw [hw] at htx hhs
      by_cases ha : advances (poll c l p) = true
      · have hkeep : KeepsBaseline c l.prev.tx p := by
          simp only [KeepsBaseline, he, hw]
          intro htx0 hhs0 hnp
          have hup := verdictFrom_no_handshake c l.prev.tx p egress (by simp [hw, hhs0])
          rw [advances_iff, hst, hup, htx, hhs] at ha
          simp [htx0, hhs0, hnp] at ha
        simp [tick, Loop.record, ha, htx, Poll.reading, he, hw, hkeep]
      · have hna := ha
        rw [advances_iff, hst, htx, hhs] at hna
        simp only [Option.map_some, Option.getD_some, not_or, not_not, uint64_pos_iff] at hna
        obtain ⟨hdown, htx0, hhs0⟩ := hna
        have hup := verdictFrom_no_handshake c l.prev.tx p egress (by simp [hw, hhs0])
        have hnp : ¬ ProbeUp c p egress := fun h => hdown (hup.mpr h)
        simp [tick, Loop.record, ha, Poll.reading, he, hw, KeepsBaseline, htx0, hhs0, hnp]

theorem loopAfter_baseline (c : Config) (history : List Poll)
    (h : ∀ i (hi : i < history.length), KeepsBaseline c (lastTx (history.take i)) history[i]) :
    (loopAfter c history).prev.tx = lastTx history := by
  induction history using List.reverseRecOn with
  | nil => rfl
  | append_singleton earlier p ih =>
    have hb : (loopAfter c earlier).prev.tx = lastTx earlier := by
      apply ih
      intro i hi
      have hk := h i (by simp; omega)
      rwa [List.take_append_of_le_length (Nat.le_of_lt hi), List.getElem_append_left hi] at hk
    have hlast := h earlier.length (by simp)
    simp only [List.take_left, List.getElem_concat_length] at hlast
    rw [loopAfter_concat, lastTx_concat, ← hb]
    exact (tick_baseline_iff c _ p).mpr (hb ▸ hlast)

theorem verdictFrom_flat (c : Config) {p : Poll} {egress : Bytes} {r : WgReading}
    (hw : p.wg = some r) (hp : p.probe ≠ .succeeded) : verdictFrom c r.tx p egress ≠ .up := by
  intro hup
  obtain ⟨he, hproof⟩ := (decideHealth_up_iff _ _ _ _).mp hup
  rcases hproof with hwg | hlive
  · obtain ⟨-, -, -, htx⟩ := (wgProofFresh_iff _ _ _).mp hwg
    simp [sampled_tx, hw] at htx
  · exact hp ((sampled_liveProbeFresh c.profile p egress he.1).mp hlive).1

/-- After a run whose ticks all kept the baseline, the next tick is judged
against the last real reading, and a flat counter without a probe is not up. -/
theorem verdict_of_real_readings (c : Config) (history : List Poll) (p : Poll)
    (h : ∀ i (hi : i < history.length), KeepsBaseline c (lastTx (history.take i)) history[i]) :
    (∀ egress, p.egress = some egress →
      (poll c (loopAfter c history) p).state = verdictFrom c (lastTx history) p egress) ∧
    (∀ r, p.reading = some r → r.tx = lastTx history → p.probe ≠ .succeeded →
      (poll c (loopAfter c history) p).state ≠ .up) := by
  have hverdict : ∀ egress, p.egress = some egress →
      (poll c (loopAfter c history) p).state = verdictFrom c (lastTx history) p egress := by
    intro egress he
    rw [poll_of_egress c _ he, loopAfter_baseline c history h]
  refine ⟨hverdict, ?_⟩
  intro r hr htx hp
  obtain ⟨egress, he, hw⟩ := Option.bind_eq_some_iff.mp hr
  rw [hverdict egress he, ← htx]
  exact verdictFrom_flat c hw hp

/-- A profile whose probe answers once while wg cannot be read, between two
readings of the same counter. -/
def mixedHistory : List Poll :=
  [{ startedAt := 1000 * second, egress := some (lit "203.0.113.7"),
     wg := some ⟨50, 100, 990 * second⟩, probe := .failed },
   { startedAt := 1005 * second, egress := some (lit "203.0.113.7"), probe := .succeeded }]

def flatPoll : Poll :=
  { startedAt := 1010 * second, egress := some (lit "203.0.113.7"),
    wg := some ⟨60, 100, 990 * second⟩, probe := .failed }

theorem verdict_of_real_readings_first :
    (poll { profile := lit "eu" } (loopAfter { profile := lit "eu" } (mixedHistory.take 1))
      flatPoll).state = .down := by
  have h := (verdict_of_real_readings { profile := lit "eu" } (mixedHistory.take 1) flatPoll
    (by decide)).1 (lit "203.0.113.7") rfl
  rw [h]
  decide

/-- The probe-only tick resets the baseline to 0, and the flat counter of the
next tick is reported up. -/
theorem baseline_not_last_reading :
    ¬ ∀ (c : Config) (history : List Poll) (p : Poll) (egress : Bytes), p.egress = some egress →
      (poll c (loopAfter c history) p).state = verdictFrom c (lastTx history) p egress := by
  intro h
  have hx := h { profile := lit "eu" } mixedHistory flatPoll (lit "203.0.113.7") rfl
  revert hx
  decide

end HelixProxy.Healthd
