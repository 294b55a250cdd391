import HelixProxy.Artifacts
import HelixProxy.Numerals

/-!
# The port of a peer endpoint

`peerEndpoint` takes the port from the profile's configuration, where it may be a
number or a string, or falls back to the default. Numbers are cut to an integer and
neither form is checked against the upper end of the port range. A number beyond
float64 anywhere in the configuration hides the port.
-/

namespace HelixProxy.Routing

open Store Strconv
set_option autoImplicit false

/-- The value under `peer_port`, if the configuration has one. -/
def givenPort (p : VPNProfile) : Option Json :=
  match p.config with
  | .document (.object members) => lookupKey members (lit "peer_port")
  | _ => none

/-- The type switch of `peerEndpoint` on that value. -/
def readPort : Json → Option Int
  | .number v => if v > 0 then some (intOfFloat v) else none
  | .string v => (atoi v).bind fun n => if n > 0 then some n else none
  | _ => none

/-- The value is an integer, or a text that spells one. -/
inductive Denotes : Json → Int → Prop
  | number (n : Int) : Denotes (.number n) n
  | string {s : Bytes} {n : Int} : Numeral s n → Denotes (.string s) n

def Usable (port : Int) : Prop := 1 ≤ port ∧ port ≤ 65535

instance (port : Int) : Decidable (Usable port) := inferInstanceAs (Decidable (_ ∧ _))

/-- The values that leave a usable port: those that are cut to one, and those that
are passed over for the default. -/
def Harmless : Json → Prop
  | .number q => q ≤ 0 ∨ 1 ≤ q ∧ q < 65536
  | .string s => ∀ n, Numeral s n → n ≤ 65535 ∨ maxInt64 < n
  | _ => True

theorem peerPortOverride_eq (p : VPNProfile) : peerPortOverride p =
    p.config.toMap.bind fun m => (lookupKey m (lit "peer_port")).bind readPort := by
  unfold peerPortOverride
  refine congrArg (Option.bind _) (funext fun m => ?_)
  cases lookupKey m (lit "peer_port") with
  | none => rfl
  | some v => cases v <;> rfl

/-- A configuration that can be read is looked at, the others are passed over. -/
theorem peerEndpoint_port (p : VPNProfile) :
    (p.config.toMap ≠ none →
      (peerEndpoint p).2 = ((givenPort p).bind readPort).getD defaultPeerPort) ∧
    (p.config.toMap = none → (peerEndpoint p).2 = defaultPeerPort) := by
  rw [peerEndpoint, peerPortOverride_eq]
  refine ⟨fun hread => ?_, fun hnone => ?_⟩
  · unfold givenPort
    unfold RawConfig.toMap at hread ⊢
    split at hread
    · next members hconfig =>
      rw [hconfig]
      dsimp only
      split at hread
      · next hreadable => rw [if_pos hreadable, Option.bind_some]
      · exact absurd rfl hread
    · next hconfig =>
      rw [hconfig]
      rfl
    · exact absurd rfl hread
  · rw [hnone]
    rfl

theorem usable_default : Usable defaultPeerPort := by decide

theorem intOfFloat_of_lt {q : Rat} (h : q < 65536) : intOfFloat q = q.floor := by
  have hfloor : q.floor < 65536 := by
    rw [Rat.floor_lt_iff]
    exact_mod_cast h
  have hmax : q.floor ≤ maxInt64 := by
    have : (65536 : Int) ≤ maxInt64 := by decide
    omega
  exact if_pos hmax

theorem usable_intOfFloat (q : Rat) : Usable (intOfFloat q) ↔ 1 ≤ q ∧ q < 65536 := by
  have hone : 1 ≤ q.floor ↔ 1 ≤ q := by
    rw [Rat.le_floor_iff]
    norm_num
  have hlt : q.floor < 65536 ↔ q < 65536 := by
    rw [Rat.floor_lt_iff]
    norm_num
  rw [← hone, ← hlt]
  unfold Usable intOfFloat
  have hmin : minInt64 < 0 := by decide
  have hmax : 65536 < maxInt64 := by decide
  split <;> omega

theorem usable_readPort (v : Json) : Usable ((readPort v).getD defaultPeerPort) ↔ Harmless v := by
  cases v with
  | number q =>
    by_cases hq : q > 0
    · have hle : ¬q ≤ 0 := not_le.mpr hq
      simp only [readPort, hq, if_true, Option.getD_some, usable_intOfFloat, Harmless, hle, false_or]
    · have hle : q ≤ 0 := not_lt.mp hq
      simp only [readPort, hq, if_false, Option.getD_none, usable_default, Harmless, hle, true_or]
  | string s =>
    constructor
    · intro h n hn
      by_cases hrange : minInt64 ≤ n ∧ n ≤ maxInt64
      · have hatoi := atoi_eq_some_iff.mpr ⟨hn, hrange⟩
        by_cases hpos : n > 0
        · simp only [readPort, hatoi, Option.bind_some, hpos, if_true, Option.getD_some] at h
          exact .inl h.2
        · exact .inl (by omega)
      · have hmin : minInt64 < 0 := by decide
        omega
    · intro h
      cases hatoi : atoi s with
      | none => simpa [readPort, hatoi] using usable_default
      | some n =>
        obtain ⟨hn, -, hmax⟩ := atoi_eq_some_iff.mp hatoi
        have hle := h n hn
        by_cases hpos : n > 0
        · simp only [readPort, hatoi, Option.bind_some, hpos, if_true, Option.getD_some]
          exact ⟨by omega, by omega⟩
        · simpa [readPort, hatoi, hpos] using usable_default
  | null => simpa [readPort, Harmless] using usable_default
  | overflow => simpa [readPort, Harmless] using usable_default
  | bool b => simpa [readPort, Harmless] using usable_default
  | array items => simpa [readPort, Harmless] using usable_default
  | object members => simpa [readPort, Harmless] using usable_default

/-- A value that denotes a usable port is read as that port. -/
theorem readPort_of_denotes {v : Json} {n : Int} (hv : Denotes v n) (hn : Usable n) :
    readPort v = some n := by
  cases hv with
  | number n =>
    have hpos : (n : Rat) > 0 := by exact_mod_cast hn.1
    have hlt : (n : Rat) < 65536 := by exact_mod_cast Int.lt_add_one_of_le hn.2
    simp [readPort, hpos, intOfFloat_of_lt hlt]
  | string hnum =>
    have hmin : minInt64 < 0 := by decide
    have hmax : 65536 < maxInt64 := by decide
    have hatoi := atoi_eq_some_iff.mpr ⟨hnum, by have := hn.1; omega, by have := hn.2; omega⟩
    have hpos : n > 0 := hn.1
    simp [readPort, hatoi, hpos]

/-- The endpoint of a profile, and what every compile pass over it writes, has a
port that Squid and Dante accept. -/
structure UsableEndpoint (p : VPNProfile) : Prop where
  range : Usable (peerEndpoint p).2
  given : ∀ v n, givenPort p = some v → Denotes v n → Usable n → (peerEndpoint p).2 = n
  cachePeer : ∀ q ps c, q.listProfiles = some ps → p ∈ ps.rows → compileAll q = some c →
    ∀ t ∈ c.tunnels, t.profile = p.name →
      ∃ n, Usable n ∧ lit " parent " ++ itoa n ++ lit " 0 no-query name=" <:+: cachePeerLine t
  dante : ∀ q ps c, q.listProfiles = some ps → p ∈ ps.rows → compileAll q = some c →
    ∀ x ∈ c.resolved, x.route.tunnel = p.name →
      ∃ n, Usable n ∧ lit " port = " ++ itoa n <:+ danteRouteLine x.dante

section Pass

variable {q : Queries} {ps : Profiles} {c : Compiled} {p : VPNProfile}

theorem tunnel_of_profile (hps : q.listProfiles = some ps) (hp : p ∈ ps.rows)
    (hc : compileAll q = some c) {t : Tunnel} (ht : t ∈ c.tunnels) (hname : t.profile = p.name) :
    t = tunnelOf p := by
  obtain ⟨ps', ts, hps', -, htunnels, -⟩ := compileAll_eq_some hc
  obtain rfl : ps' = ps := by simpa [hps'] using hps
  rw [htunnels] at ht
  obtain ⟨p', hp', -, rfl⟩ := mem_resolveTunnels.mp ht
  rw [ps'.eq_of_name hp' hp hname]

theorem dante_of_profile (hps : q.listProfiles = some ps) (hp : p ∈ ps.rows)
    (hc : compileAll q = some c) {x : Resolved} (hx : x ∈ c.resolved)
    (hname : x.route.tunnel = p.name) : x.dante.peerPort = (peerEndpoint p).2 := by
  obtain ⟨ps', ts, hps', -, tgt, -, p', tier, ⟨-, hp', -⟩, rfl⟩ := (mem_resolved_iff hc x).mp hx
  obtain rfl : ps' = ps := by simpa [hps'] using hps
  rw [ps'.eq_of_name hp' hp hname]
  rfl

end Pass

/-- The endpoint has a usable port exactly when the configured value, if there is one, is
cut to a usable port or passed over; and where the configuration cannot be read, denotes
no usable port but the default. -/
theorem usable_endpoint_iff (p : VPNProfile) :
    UsableEndpoint p ↔ ∀ v, givenPort p = some v →
      (p.config.toMap ≠ none → Harmless v) ∧
        (p.config.toMap = none → ∀ n, Denotes v n → Usable n → n = defaultPeerPort) := by
  obtain ⟨hread, hunread⟩ := peerEndpoint_port p
  have hrange : p.config.toMap ≠ none →
      (Usable (peerEndpoint p).2 ↔ ∀ v, givenPort p = some v → Harmless v) := by
    intro hsome
    rw [hread hsome]
    cases hv : givenPort p with
    | none => simpa using usable_default
    | some v => simpa using usable_readPort v
  constructor
  · intro h v hv
    refine ⟨fun hsome => (hrange hsome).mp h.range v hv, fun hnone n hdenotes hn => ?_⟩
    rw [← hunread hnone, h.given v n hv hdenotes hn]
  · intro h
    have hport : Usable (peerEndpoint p).2 := by
      by_cases hnone : p.config.toMap = none
      · rw [hunread hnone]
        exact usable_default
      · exact (hrange hnone).mpr fun v hv => (h v hv).1 hnone
    refine ⟨hport, ?_, ?_, ?_⟩
    · intro v n hv hdenotes hn
      by_cases hnone : p.config.toMap = none
      · rw [hunread hnone, (h v hv).2 hnone n hdenotes hn]
      · simp [hread hnone, hv, readPort_of_denotes hdenotes hn]
    · intro q ps c hps hp hc t ht hname
      obtain rfl := tunnel_of_profile hps hp hc ht hname
      refine ⟨_, hport, lit "cache_peer " ++ (tunnelOf p).peerHost, (tunnelOf p).name, ?_⟩
      simp [cachePeerLine, tunnelOf]
    · intro q ps c hps hp hc x hx hname
      refine ⟨_, hport, lit "    from: 0.0.0.0/0   to: " ++ x.dante.targetCIDR ++ lit "   via: " ++
        x.dante.peerHost, ?_⟩
      simp [danteRouteLine, dante_of_profile hps hp hc hx hname]

/-- A profile whose configuration is an object with this one member. -/
def profileWithPort (v : Json) : VPNProfile where
  id := lit "p1"
  name := lit "eu"
  config := .document (.object [(lit "peer_port", v)])

theorem givenPort_profileWithPort (v : Json) : givenPort (profileWithPort v) = some v := by
  simp [givenPort, profileWithPort, lookupKey]

/-- A fraction below one is cut to port 0. -/
theorem endpoint_port_zero :
    (peerEndpoint (profileWithPort (.number (1 / 2)))).2 = 0 ∧
      ¬UsableEndpoint (profileWithPort (.number (1 / 2))) := by
  have hfloor : intOfFloat (1 / 2) = 0 := by
    rw [intOfFloat_of_lt (by norm_num)]
    have hpos : 0 ≤ (1 / 2 : Rat).floor := Rat.le_floor_iff.mpr (by norm_num)
    have hlt : (1 / 2 : Rat).floor < 1 := Rat.floor_lt_iff.mpr (by norm_num)
    omega
  have hport : (peerEndpoint (profileWithPort (.number (1 / 2)))).2 = 0 := by
    have hread : (profileWithPort (.number (1 / 2))).config.toMap ≠ none := by
      rintro ⟨⟩
    rw [(peerEndpoint_port _).1 hread, givenPort_profileWithPort]
    have hhalf : (1 / 2 : Rat) > 0 := by norm_num
    simp only [Option.bind_some, readPort, hhalf, if_true, Option.getD_some, hfloor]
  refine ⟨hport, fun h => ?_⟩
  have hrange := h.range
  rw [hport] at hrange
  exact absurd hrange (by decide)

example : (peerEndpoint (profileWithPort (.string (lit "70000")))).2 = 70000 := by decide

/-- A number out of range beside it hides the port. -/
def profileWithOverflow : VPNProfile where
  id := lit "p1"
  name := lit "eu"
  config := .document (.object [(lit "peer_port", .string (lit "9000")), (lit "weight", .overflow)])

example : (peerEndpoint profileWithOverflow).2 = defaultPeerPort := by decide

end HelixProxy.Routing
