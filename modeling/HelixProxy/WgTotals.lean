import HelixProxy.WgLayout
import Mathlib.Algebra.Order.BigOperators.Group.List
import Mathlib.Algebra.Order.Ring.Nat

/-!
# The totals over all peers

`SumTransfer` adds counters of 64 bits in 64 bits. Two totals are compared with the
sums of the counters as numbers: growth of the counters shows in the totals unless
it carries them past 2^64.
-/

namespace HelixProxy.Vpn

set_option autoImplicit false

/-- The readings of two outputs that list the same peers, peer by peer. -/
structure SamePeers (before after : List PeerTransfer)
    (pairs : List (PeerTransfer × PeerTransfer)) : Prop where
  before : (pairs.map Prod.fst).Perm before
  after : (pairs.map Prod.snd).Perm after
  keys : ∀ p ∈ pairs, p.1.publicKey = p.2.publicKey

/-- No counter went back and one went on. -/
def Grew (counter : PeerTransfer → UInt64) (pairs : List (PeerTransfer × PeerTransfer)) : Prop :=
  (∀ p ∈ pairs, counter p.1 ≤ counter p.2) ∧ ∃ p ∈ pairs, counter p.1 < counter p.2

structure TotalFollows (counter : PeerTransfer → UInt64)
    (pairs : List (PeerTransfer × PeerTransfer)) (total total' : UInt64) : Prop where
  grows : Grew counter pairs → total < total'
  flat : (∀ p ∈ pairs, counter p.1 = counter p.2) → total = total'

/-- The sum of the counters as a number. -/
def exactTotal (counter : PeerTransfer → UInt64) (peers : List PeerTransfer) : Nat :=
  (peers.map fun p => (counter p).toNat).sum

/-- The growth, as 64 bits see it, is there and does not carry over. -/
def Uncarried (before after : Nat) : Prop :=
  0 < (after - before) % 2 ^ 64 ∧ before % 2 ^ 64 + (after - before) % 2 ^ 64 < 2 ^ 64

theorem uncarried_of_lt {before after : Nat} (h : before < after) (hmax : after < 2 ^ 64) :
    Uncarried before after := by
  unfold Uncarried
  omega

theorem exactTotal_perm (counter : PeerTransfer → UInt64) {xs ys : List PeerTransfer}
    (h : xs.Perm ys) : exactTotal counter xs = exactTotal counter ys := (h.map _).sum_eq

theorem sumTransfer_toNat (peers : List PeerTransfer) :
    (sumTransfer peers).1.toNat = exactTotal PeerTransfer.rx peers % 2 ^ 64 ∧
      (sumTransfer peers).2.toNat = exactTotal PeerTransfer.tx peers % 2 ^ 64 := by
  induction peers using List.reverseRecOn with
  | nil => exact ⟨rfl, rfl⟩
  | append_singleton peers p ih =>
    obtain ⟨hrx, htx⟩ := ih
    have hsum : sumTransfer (peers ++ [p]) =
        ((sumTransfer peers).1 + p.rx, (sumTransfer peers).2 + p.tx) := by
      rw [sumTransfer, List.foldl_append]
      rfl
    have hexact : ∀ counter, exactTotal counter (peers ++ [p]) =
        exactTotal counter peers + (counter p).toNat := by
      intro counter
      simp [exactTotal]
    rw [hsum, hexact, hexact, UInt64.toNat_add, UInt64.toNat_add, hrx, htx]
    exact ⟨Nat.mod_add_mod _ _ _, Nat.mod_add_mod _ _ _⟩

section Pairs

variable {before after : List PeerTransfer} {pairs : List (PeerTransfer × PeerTransfer)}
  (h : SamePeers before after pairs) (counter : PeerTransfer → UInt64)
include h

theorem SamePeers.exactTotal_eq :
    exactTotal counter before = (pairs.map fun p => (counter p.1).toNat).sum ∧
      exactTotal counter after = (pairs.map fun p => (counter p.2).toNat).sum := by
  rw [← exactTotal_perm counter h.before, ← exactTotal_perm counter h.after]
  simp only [exactTotal, List.map_map]
  exact ⟨rfl, rfl⟩

theorem SamePeers.exactTotal_lt (hgrew : Grew counter pairs) :
    exactTotal counter before < exactTotal counter after := by
  obtain ⟨hle, p, hp, hlt⟩ := hgrew
  rw [(h.exactTotal_eq counter).1, (h.exactTotal_eq counter).2]
  apply List.sum_lt_sum
  · intro q hq
    exact UInt64.le_iff_toNat_le.mp (hle q hq)
  · exact ⟨p, hp, UInt64.lt_iff_toNat_lt.mp hlt⟩

theorem SamePeers.exactTotal_flat (hflat : ∀ p ∈ pairs, counter p.1 = counter p.2) :
    exactTotal counter before = exactTotal counter after := by
  rw [(h.exactTotal_eq counter).1, (h.exactTotal_eq counter).2]
  congr 1
  apply List.map_congr_left
  intro p hp
  rw [hflat p hp]

/-- For either counter, with the total that wraps around. -/
theorem SamePeers.totalFollows_iff {total total' : UInt64}
    (ht : total.toNat = exactTotal counter before % 2 ^ 64)
    (ht' : total'.toNat = exactTotal counter after % 2 ^ 64) :
    TotalFollows counter pairs total total' ↔
      (Grew counter pairs → Uncarried (exactTotal counter before) (exactTotal counter after)) := by
  have hwrap : ∀ m n : Nat, m < n → (m % 2 ^ 64 < n % 2 ^ 64 ↔ Uncarried m n) := by
    intro m n hlt
    unfold Uncarried
    omega
  constructor
  · intro hfollows hgrew
    have hlt := UInt64.lt_iff_toNat_lt.mp (hfollows.grows hgrew)
    rw [ht, ht'] at hlt
    exact (hwrap _ _ (h.exactTotal_lt counter hgrew)).mp hlt
  · intro huncarried
    constructor
    · intro hgrew
      rw [UInt64.lt_iff_toNat_lt, ht, ht']
      exact (hwrap _ _ (h.exactTotal_lt counter hgrew)).mpr (huncarried hgrew)
    · intro hflat
      rw [← UInt64.toNat_inj, ht, ht', h.exactTotal_flat counter hflat]

end Pairs

/-- What the totals of two outputs owe to the counters in them, and the proof of
liveness to the totals. -/
structure TrafficShows (out out' : Bytes) : Prop where
  tx : ∀ before after pairs, parseTransfer out = some before → parseTransfer out' = some after →
    SamePeers before after pairs →
      TotalFollows PeerTransfer.tx pairs (sumTransfer before).2 (sumTransfer after).2
  rx : ∀ before after pairs, parseTransfer out = some before → parseTransfer out' = some after →
    SamePeers before after pairs →
      TotalFollows PeerTransfer.rx pairs (sumTransfer before).1 (sumTransfer after).1
  proof : ∀ before after pairs, parseTransfer out = some before → parseTransfer out' = some after →
    SamePeers before after pairs → Grew PeerTransfer.tx pairs →
      ∀ (prev cur : HealthSnapshot) (freshness : Int), prev.tx = (sumTransfer before).2 →
        cur.tx = (sumTransfer after).2 → cur.lastHandshake ≠ 0 →
        0 ≤ sub cur.checkedAt cur.lastHandshake → sub cur.checkedAt cur.lastHandshake ≤ freshness →
          wgProofFresh prev cur freshness = true

/-- Growth of the counters carries neither total over. -/
def NeverCarried (out out' : Bytes) : Prop :=
  ∀ before after pairs, parseTransfer out = some before → parseTransfer out' = some after →
    SamePeers before after pairs →
      (Grew PeerTransfer.tx pairs →
        Uncarried (exactTotal PeerTransfer.tx before) (exactTotal PeerTransfer.tx after)) ∧
      (Grew PeerTransfer.rx pairs →
        Uncarried (exactTotal PeerTransfer.rx before) (exactTotal PeerTransfer.rx after))

/-- As long as the counters of the later output add up to less than 2^64. -/
theorem neverCarried_of_lt {out out' : Bytes}
    (h : ∀ after, parseTransfer out' = some after →
      exactTotal PeerTransfer.tx after < 2 ^ 64 ∧ exactTotal PeerTransfer.rx after < 2 ^ 64) :
    NeverCarried out out' := by
  intro before after pairs _ hout' hsame
  obtain ⟨htx, hrx⟩ := h after hout'
  constructor
  · intro hgrew
    exact uncarried_of_lt (hsame.exactTotal_lt PeerTransfer.tx hgrew) htx
  · intro hgrew
    exact uncarried_of_lt (hsame.exactTotal_lt PeerTransfer.rx hgrew) hrx

/-- Over any two outputs, traffic shows in the totals exactly when they are not
carried over. -/
theorem traffic_shows_iff (out out' : Bytes) : TrafficShows out out' ↔ NeverCarried out out' := by
  have htx : ∀ before after pairs, SamePeers before after pairs →
      (TotalFollows PeerTransfer.tx pairs (sumTransfer before).2 (sumTransfer after).2 ↔ _) :=
    fun before after pairs h => h.totalFollows_iff PeerTransfer.tx (sumTransfer_toNat before).2
      (sumTransfer_toNat after).2
  have hrx : ∀ before after pairs, SamePeers before after pairs →
      (TotalFollows PeerTransfer.rx pairs (sumTransfer before).1 (sumTransfer after).1 ↔ _) :=
    fun before after pairs h => h.totalFollows_iff PeerTransfer.rx (sumTransfer_toNat before).1
      (sumTransfer_toNat after).1
  constructor
  · intro hshows before after pairs hout hout' hsame
    exact ⟨(htx before after pairs hsame).mp (hshows.tx before after pairs hout hout' hsame),
      (hrx before after pairs hsame).mp (hshows.rx before after pairs hout hout' hsame)⟩
  · intro hnever
    refine ⟨?_, ?_, ?_⟩
    · intro before after pairs hout hout' hsame
      exact (htx before after pairs hsame).mpr (hnever before after pairs hout hout' hsame).1
    · intro before after pairs hout hout' hsame
      exact (hrx before after pairs hsame).mpr (hnever before after pairs hout hout' hsame).2
    · intro before after pairs hout hout' hsame hgrew prev cur freshness hprev hcur hne h0 hle
      have hfollows := (htx before after pairs hsame).mpr (hnever before after pairs hout hout' hsame).1
      rw [wgProofFresh_iff, hprev, hcur]
      exact ⟨hne, h0, hle, hfollows.grows hgrew⟩

/-- Two peers whose counters add up to almost 2^64, and the second of them a byte later. -/
theorem traffic_carried_over :
    ¬TrafficShows (lit "a\t0\t9223372036854775808\nb\t0\t9223372036854775807\n")
      (lit "a\t0\t9223372036854775808\nb\t0\t9223372036854775808\n") := by
  intro h
  have hout : parseTransfer (lit "a\t0\t9223372036854775808\nb\t0\t9223372036854775807\n") =
      some [⟨lit "a", 0, 9223372036854775808⟩, ⟨lit "b", 0, 9223372036854775807⟩] := by decide
  have hout' : parseTransfer (lit "a\t0\t9223372036854775808\nb\t0\t9223372036854775808\n") =
      some [⟨lit "a", 0, 9223372036854775808⟩, ⟨lit "b", 0, 9223372036854775808⟩] := by decide
  have hsame : SamePeers
      [⟨lit "a", 0, 9223372036854775808⟩, ⟨lit "b", 0, 9223372036854775807⟩]
      [⟨lit "a", 0, 9223372036854775808⟩, ⟨lit "b", 0, 9223372036854775808⟩]
      [(⟨lit "a", 0, 9223372036854775808⟩, ⟨lit "a", 0, 9223372036854775808⟩),
       (⟨lit "b", 0, 9223372036854775807⟩, ⟨lit "b", 0, 9223372036854775808⟩)] :=
    ⟨.refl _, .refl _, by simp⟩
  have hlt := (h.tx _ _ _ hout hout' hsame).grows ⟨by simp, by simp⟩
  exact absurd hlt (by decide)

end HelixProxy.Vpn
