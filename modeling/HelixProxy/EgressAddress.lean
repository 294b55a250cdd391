import HelixProxy.Vpn

/-!
# The egress address and the host's own

`DecideHealth` compares the two as texts. An address has many: letter case, zero
compression, the IPv4-mapped form, and white space around a configured value. The
reader here takes the forms of RFC 4291 and dotted quads to one value.
-/

namespace HelixProxy.Ip

set_option autoImplicit false

/-- Eight groups of 16 bits; an IPv4 address is the IPv6 address it is mapped to. -/
abbrev Address := List Nat

def readOctet (s : Bytes) : Option Nat :=
  if s ≠ [] ∧ s.all Strconv.isDigit ∧ (s.head? = some 48 → s.length = 1) ∧ Strconv.decimal s ≤ 255
  then some (Strconv.decimal s) else none

/-- A dotted quad, as two groups. -/
def readQuad (s : Bytes) : Option (List Nat) :=
  match Strings.split s 46 with
  | [a, b, c, d] =>
    match readOctet a, readOctet b, readOctet c, readOctet d with
    | some a, some b, some c, some d => some [a * 256 + b, c * 256 + d]
    | _, _, _, _ => none
  | _ => none

def hexDigit (b : UInt8) : Option Nat :=
  if 48 ≤ b ∧ b ≤ 57 then some (b.toNat - 48)
  else if 97 ≤ b ∧ b ≤ 102 then some (b.toNat - 87)
  else if 65 ≤ b ∧ b ≤ 70 then some (b.toNat - 55)
  else none

def readGroup (s : Bytes) : Option Nat :=
  if 1 ≤ s.length ∧ s.length ≤ 4 then
    s.foldlM (fun n b => (hexDigit b).map (n * 16 + ·)) 0
  else none

/-- The last part may be a dotted quad. -/
def readGroups : List Bytes → Option (List Nat)
  | [] => some []
  | [last] => (readQuad last).or ((readGroup last).map ([·]))
  | g :: rest => (readGroup g).bind fun x => (readGroups rest).map (x :: ·)

/-- The texts before and after the first `::`. -/
def cutZeros : Bytes → Option (Bytes × Bytes)
  | 58 :: 58 :: rest => some ([], rest)
  | b :: rest => (cutZeros rest).map fun p => (b :: p.1, p.2)
  | [] => none

def parts (s : Bytes) : List Bytes := if s = [] then [] else Strings.split s 58

def readIPv6 (s : Bytes) : Option Address :=
  match cutZeros s with
  | none => (readGroups (parts s)).bind fun gs => if gs.length = 8 then some gs else none
  | some (before, after) =>
    ((parts before).mapM readGroup).bind fun ls => (readGroups (parts after)).bind fun rs =>
      if ls.length + rs.length < 8 then
        some (ls ++ List.replicate (8 - ls.length - rs.length) 0 ++ rs)
      else none

def readAddress (s : Bytes) : Option Address :=
  match readQuad s with
  | some q => some ([0, 0, 0, 0, 0, 0xFFFF] ++ q)
  | none => readIPv6 s

end HelixProxy.Ip

namespace HelixProxy.Vpn

open Ip
set_option autoImplicit false

/-- Two texts of one address, the configured one with white space around it or not. -/
def SameAddress (egressIP hostIP : Bytes) : Prop :=
  ∃ a, readAddress egressIP = some a ∧ readAddress (Strings.trimSpace hostIP) = some a

theorem SameAddress.egress_ne {egressIP hostIP : Bytes} (h : SameAddress egressIP hostIP) :
    egressIP ≠ [] := by
  rintro rfl
  obtain ⟨a, ha, -⟩ := h
  cases ha

theorem SameAddress.host_ne {egressIP hostIP : Bytes} (h : SameAddress egressIP hostIP) :
    hostIP ≠ [] := by
  rintro rfl
  obtain ⟨a, -, ha⟩ := h
  cases ha

theorem decideHealth_down_iff (prev cur : HealthSnapshot) (hostIP : Bytes) (freshness : Int) :
    decideHealth prev cur hostIP freshness = .down ↔
      ¬decideHealth prev cur hostIP freshness = .up := by
  rcases decideHealth_up_or_down prev cur hostIP freshness with h | h <;> simp [h]

/-- An egress through the host's own address is down exactly when the two are
spelled the same, or there is no proof of liveness to begin with. -/
theorem own_address_down_iff (prev cur : HealthSnapshot) (hostIP : Bytes) (freshness : Int)
    (h : SameAddress cur.egressIP hostIP) :
    decideHealth prev cur hostIP freshness = .down ↔
      cur.egressIP = hostIP ∨ freshness ≤ 0 ∨
        wgProofFresh prev cur freshness = false ∧ liveProbeFresh cur freshness = false := by
  rw [decideHealth_down_iff, decideHealth_up_iff, EgressOK]
  constructor
  · intro hdown
    by_cases hsame : cur.egressIP = hostIP
    · exact .inl hsame
    by_cases hwindow : freshness ≤ 0
    · exact .inr (.inl hwindow)
    · have hok : 0 < freshness ∧ cur.egressIP ≠ [] ∧ (hostIP = [] ∨ cur.egressIP ≠ hostIP) :=
        ⟨by omega, h.egress_ne, .inr hsame⟩
      have hproof := fun hp => hdown ⟨hok, hp⟩
      exact .inr (.inr (by simpa using hproof))
  · rintro hcases ⟨⟨hwindow, -, hother⟩, hproof⟩
    rcases hcases with hsame | hle | ⟨hwg, hprobe⟩
    · exact hother.elim h.host_ne fun hne => hne hsame
    · omega
    · simp [hwg, hprobe] at hproof

/-- A tunnel that was just probed. -/
def probed (egressIP : Bytes) : HealthSnapshot :=
  { egressIP, checkedAt := 1000 * second, liveProbeAt := 1000 * second }

theorem own_address_down_same :
    decideHealth {} (probed (lit "203.0.113.7")) (lit "203.0.113.7") (180 * second) = .down :=
  (own_address_down_iff {} (probed (lit "203.0.113.7")) (lit "203.0.113.7") (180 * second)
    ⟨[0, 0, 0, 0, 0, 0xFFFF, 0xCB00, 0x7107], by decide, by decide⟩).mpr (.inl rfl)

example : SameAddress (lit "203.0.113.7") (lit " ::FFFF:203.0.113.7\n") :=
  ⟨[0, 0, 0, 0, 0, 0xFFFF, 0xCB00, 0x7107], by decide, by decide⟩

/-- The operator typed the address in capitals. -/
theorem own_address_not_down :
    ¬∀ (prev cur : HealthSnapshot) (hostIP : Bytes) (freshness : Int),
      SameAddress cur.egressIP hostIP → decideHealth prev cur hostIP freshness = .down := by
  intro h
  have hsame : SameAddress (lit "2001:db8::1") (lit "2001:DB8:0:0:0:0:0:1") :=
    ⟨[0x2001, 0xDB8, 0, 0, 0, 0, 0, 1], by decide, by decide⟩
  have hdown := h {} (probed (lit "2001:db8::1")) (lit "2001:DB8:0:0:0:0:0:1") (180 * second) hsame
  exact absurd hdown (by decide)

end HelixProxy.Vpn
