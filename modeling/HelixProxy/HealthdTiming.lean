import HelixProxy.HealthdBaseline
import HelixProxy.Wg

/-!
# The instants of a poll

A snapshot is stamped when sampling starts, before the calls that read the
tunnel; its handshake age is taken against that stamp. So a handshake made while
the egress call runs lies in the future of its own snapshot. Across ticks the
stamp does no harm: a tick that read a positive tx always becomes the baseline.
-/

namespace HelixProxy.Healthd

open Vpn
set_option autoImplicit false

theorem sub_mem {t u f : Int} (h0 : 0 ≤ t - u) (hf : t - u ≤ f) : 0 ≤ sub t u ∧ sub t u ≤ f := by
  unfold sub Strconv.minInt64 Strconv.maxInt64
  omega

theorem sub_neg {t u : Int} (h : t < u) : sub t u < 0 := by
  unfold sub Strconv.minInt64 Strconv.maxInt64
  omega

section Sample

variable {c : Config} {prev : HealthSnapshot} {p : Poll} {w : WgReading}

/-- The handshake proof of a tick whose counter moved and whose handshake was fresh
when wg was read, at `readAt`: what is left to check is the order of the
handshake and the start of the sample. -/
theorem wgProof_iff {readAt : Int} (hwg : p.wg = some w) (hseen : w.latest ≠ 0)
    (hstart : p.startedAt ≤ readAt) (hfresh : readAt - w.latest ≤ c.freshness)
    (htx : prev.tx < w.tx) :
    WgProof c prev p ↔ w.latest ≤ p.startedAt := by
  constructor
  · rintro ⟨w', hw', -, hage, -⟩
    obtain rfl := Option.some.inj (hwg.symm.trans hw')
    by_contra hlate
    have hneg := sub_neg (Int.not_le.mp hlate)
    omega
  · intro hle
    have hage := sub_mem (show 0 ≤ p.startedAt - w.latest by omega)
      (show p.startedAt - w.latest ≤ c.freshness by omega)
    exact ⟨w, hwg, hseen, hage.1, hage.2, htx⟩

end Sample

/-- One sample that starts at `p.startedAt` and reads wg at `readAt`, with a
usable egress, a moved counter and a handshake no older than the window when wg
is read, is reported up exactly when that handshake is not after the start of the
sample, or the probe of the tick succeeded. -/
theorem handshake_seen_up_iff (c : Config) (prev : HealthSnapshot) (p : Poll) (egress : Bytes)
    (transferOut handshakesOut : Option Bytes) (w : WgReading) (readAt : Int)
    (hegress : p.egress = some egress) (hok : EgressOK egress c.hostIP c.freshness)
    (hwg : p.wg = wgSample transferOut handshakesOut)
    (hw : wgSample transferOut handshakesOut = some w)
    (hseen : w.latest ≠ 0) (hstart : p.startedAt ≤ readAt)
    (hfresh : readAt - w.latest ≤ c.freshness) (htx : prev.tx < w.tx) :
    (pollOnce c prev (sample c.profile p) p.failedAt).state = .up ↔
      w.latest ≤ p.startedAt ∨ p.probe = .succeeded ∧ p.startedAt ≠ 0 := by
  have hup := poll_up_iff c { prev } p
  rw [poll] at hup
  rw [hup]
  have hproof := wgProof_iff (hwg.trans hw) hseen hstart hfresh htx
  constructor
  · rintro ⟨_, -, -, hlive⟩
    exact hlive.imp_left hproof.mp
  · intro h
    exact ⟨egress, hegress, hok, h.imp_left hproof.mpr⟩

def transferText : Option Bytes := some (lit "pk\t4096\t8192\n")

def handshakeText (epoch : String) : Option Bytes := some (lit "pk\t" ++ lit epoch ++ lit "\n")

/-- A sample that starts 200 ms into a second and reads wg in the next one. -/
def slowSample (epoch : String) : Poll :=
  { startedAt := unixTime 1700000100 + 200000000, egress := some (lit "203.0.113.7")
    wg := wgSample transferText (handshakeText epoch) }

theorem handshake_seen_up_before :
    (pollOnce { profile := lit "eu" } {} (sample (lit "eu") (slowSample "1700000100"))
      (slowSample "1700000100").failedAt).state = .up :=
  (handshake_seen_up_iff { profile := lit "eu" } {} (slowSample "1700000100") (lit "203.0.113.7")
    transferText (handshakeText "1700000100") ⟨4096, 8192, unixTime 1700000100⟩
    (unixTime 1700000101 + 500000000) rfl (by decide) rfl (by decide) (by decide) (by decide)
    (by decide) (by decide)).mpr (Or.inl (by decide))

/-- The tunnel shakes hands again while the egress call is in progress. -/
theorem handshake_seen_not_up :
    ¬ ∀ (c : Config) (prev : HealthSnapshot) (p : Poll) (egress : Bytes)
      (transferOut handshakesOut : Option Bytes) (w : WgReading) (readAt : Int),
      p.egress = some egress → EgressOK egress c.hostIP c.freshness →
      p.wg = wgSample transferOut handshakesOut → wgSample transferOut handshakesOut = some w →
      w.latest ≠ 0 → p.startedAt ≤ readAt → 0 ≤ readAt - w.latest →
      readAt - w.latest ≤ c.freshness → prev.tx < w.tx →
      (pollOnce c prev (sample c.profile p) p.failedAt).state = .up := by
  intro h
  have hx := h { profile := lit "eu" } {} (slowSample "1700000101") (lit "203.0.113.7")
    transferText (handshakeText "1700000101") ⟨4096, 8192, unixTime 1700000101⟩
    (unixTime 1700000101 + 500000000) rfl (by decide) rfl (by decide) (by decide) (by decide)
    (by decide) (by decide) (by decide)
  revert hx
  decide

/-- A tick that read a positive tx becomes the baseline, whatever the loop held. -/
theorem tick_baseline_of_positive (c : Config) (l : Loop) {p : Poll} {r : WgReading}
    (hr : p.reading = some r) (hpos : 0 < r.tx) : (tick c l p).prev.tx = r.tx := by
  obtain ⟨egress, he, hw⟩ := Option.bind_eq_some_iff.mp hr
  have hkeep : KeepsBaseline c l.prev.tx p := by
    simp only [KeepsBaseline, he, hw]
    intro hzero
    exact absurd hzero (uint64_pos_iff.mp hpos)
  have hbase := (tick_baseline_iff c l p).mpr hkeep
  rwa [hr] at hbase

/-- After any history, a tick that read a positive tx and a next one with a larger
tx, a fresh handshake and a usable egress: the second is up. -/
theorem recovers_within_one_poll (c : Config) (history : List Poll) (p q : Poll) (r s : WgReading)
    (egress : Bytes) (hp : p.reading = some r) (hpos : 0 < r.tx) (hq : q.egress = some egress)
    (hs : q.wg = some s) (hmore : r.tx < s.tx) (hseen : s.latest ≠ 0)
    (hage : 0 ≤ q.startedAt - s.latest) (hfresh : q.startedAt - s.latest ≤ c.freshness)
    (hok : EgressOK egress c.hostIP c.freshness) :
    (poll c (loopAfter c (history ++ [p])) q).state = .up := by
  have hbase : (loopAfter c (history ++ [p])).prev.tx = r.tx := by
    rw [loopAfter_concat]
    exact tick_baseline_of_positive c _ hp hpos
  rw [poll_up_iff]
  have hwindow := sub_mem hage hfresh
  refine ⟨egress, hq, hok, Or.inl ⟨s, hs, hseen, hwindow.1, hwindow.2, ?_⟩⟩
  rw [hbase]
  exact hmore

/-- A counter reset: the tunnel came up at 5000, restarted, and moves again from 10. -/
theorem recovers_within_one_poll_reset :
    (poll { profile := lit "eu" } (loopAfter { profile := lit "eu" }
      ([{ startedAt := 1000 * second, egress := some (lit "203.0.113.7"),
          wg := some ⟨0, 5000, 990 * second⟩ }] ++
        [{ startedAt := 1005 * second, egress := some (lit "203.0.113.7"),
           wg := some ⟨0, 10, 1004 * second⟩ }]))
      { startedAt := 1010 * second, egress := some (lit "203.0.113.7"),
        wg := some ⟨0, 11, 1004 * second⟩ }).state = .up :=
  recovers_within_one_poll { profile := lit "eu" } _ _ _ ⟨0, 10, 1004 * second⟩
    ⟨0, 11, 1004 * second⟩ (lit "203.0.113.7") rfl (by decide) rfl rfl (by decide) (by decide)
    (by decide) (by decide) (by decide)

end HelixProxy.Healthd
