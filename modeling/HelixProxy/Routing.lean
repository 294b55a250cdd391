import HelixProxy.Bus
import HelixProxy.Library.LastWins
import HelixProxy.Store

/-!
# Resolving tunnels and routes

`internal/routing`: the compile pass before rendering. Enabled profiles become
tunnels; each enabled target is mapped to its primary tunnel, or skipped.
-/

namespace HelixProxy.Routing

open Store
set_option autoImplicit false

def defaultPeerPort : Int := 8888

structure Tunnel where
  profile : Bytes
  name : Bytes
  peerHost : Bytes
  peerPort : Int
  deriving DecidableEq, Repr

structure DanteRoute where
  name : Bytes
  targetCIDR : Bytes
  peerHost : Bytes
  peerPort : Int
  deriving DecidableEq, Repr

/-- The characters `sanitizeToken` keeps. -/
def keptRune (r : Nat) : Bool :=
  (97 ≤ r && r ≤ 122) || (65 ≤ r && r ≤ 90) || (48 ≤ r && r ≤ 57) || r == 95 || r == 45 || r == 46

def Kept (s : Bytes) : Prop := ∀ b ∈ s, keptRune b.toNat = true

instance (s : Bytes) : Decidable (Kept s) := inferInstanceAs (Decidable (∀ b ∈ s, _))

def sanitizeToken (s : Bytes) : Bytes :=
  let b := (Utf8.runes s).map fun r => if keptRune r then UInt8.ofNat r else 95
  if b.isEmpty then lit "unnamed" else b

/-- `int(v)` for a positive float64: truncation, and the lowest int64 out of
range, as the amd64 conversion yields. -/
def intOfFloat (q : Rat) : Int :=
  if q.floor ≤ Strconv.maxInt64 then q.floor else Strconv.minInt64

def peerHostOverride (p : VPNProfile) : Option Bytes :=
  p.config.toMap.bind fun m => match lookupKey m (lit "peer_host") with
    | some (.string v) => if v ≠ [] then some v else none
    | _ => none

def peerPortOverride (p : VPNProfile) : Option Int :=
  p.config.toMap.bind fun m => match lookupKey m (lit "peer_port") with
    | some (.number v) => if v > 0 then some (intOfFloat v) else none
    | some (.string v) => (Strconv.atoi v).bind fun n => if n > 0 then some n else none
    | _ => none

def peerEndpoint (p : VPNProfile) : Bytes × Int :=
  ((peerHostOverride p).getD (lit "gluetun-" ++ sanitizeToken p.name),
    (peerPortOverride p).getD defaultPeerPort)

def tunnelOf (p : VPNProfile) : Tunnel where
  profile := p.name
  name := lit "tun_" ++ sanitizeToken p.name
  peerHost := (peerEndpoint p).1
  peerPort := (peerEndpoint p).2

/-- Go's string order is the lexicographic order of the bytes. -/
def nameLE (s t : Tunnel) : Prop := s.profile ≤ t.profile

instance : DecidableRel nameLE := fun s t => inferInstanceAs (Decidable (s.profile ≤ t.profile))

def resolveTunnels (profiles : List VPNProfile) : List Tunnel :=
  ((profiles.filter VPNProfile.enabled).map tunnelOf).insertionSort nameLE

def nameByID (profiles : List VPNProfile) : Bytes → Option Bytes :=
  LastWins.assign VPNProfile.id VPNProfile.name profiles

def peerByProfile (tunnels : List Tunnel) : Bytes → Option Tunnel :=
  LastWins.assign Tunnel.profile id tunnels

/-- `if name, ok := nameByID[id]; ok && name != ""`. -/
def namedProfile (nameByID : Bytes → Option Bytes) (id : Bytes) : Option Bytes :=
  (nameByID id).bind fun name => if name ≠ [] then some name else none

def primaryTunnel (tgt : TargetHost) (tiers : List TargetTunnelTier)
    (nameByID : Bytes → Option Bytes) : Option (Bytes × Int) :=
  match tiers with
  | first :: _ => (namedProfile nameByID first.vpnProfileID).map fun name => (name, first.tier)
  | [] =>
    if tgt.vpnProfileID ≠ [] then
      (namedProfile nameByID tgt.vpnProfileID).map fun name => (name, 0)
    else none

def closed : Bytes := lit "closed"

structure Resolved where
  dante : DanteRoute
  route : Bus.Route
  deriving DecidableEq, Repr

/-- The loop body of `CompileAll`; the outer `none` is a failed `ListTiers`,
the inner one a target that is skipped. -/
def resolveTarget (q : Queries) (nameOf : Bytes → Option Bytes) (peerOf : Bytes → Option Tunnel)
    (tgt : TargetHost) : Option (Option Resolved) :=
  if !tgt.enabled then some none
  else (q.listTiers tgt.id).map fun tiers =>
    (primaryTunnel tgt tiers nameOf).bind fun (name, tier) =>
      (peerOf name).map fun peer =>
        { dante := ⟨peer.name, tgt.privateIP, peer.peerHost, peer.peerPort⟩
          route := ⟨tgt.publicAlias, name, tier, closed⟩ }

def resolveTargets (q : Queries) (nameOf : Bytes → Option Bytes) (peerOf : Bytes → Option Tunnel) :
    List TargetHost → Option (List Resolved)
  | [] => some []
  | tgt :: rest =>
    match resolveTarget q nameOf peerOf tgt, resolveTargets q nameOf peerOf rest with
    | some r, some rs => some (r.toList ++ rs)
    | _, _ => none

structure Compiled where
  tunnels : List Tunnel
  resolved : List Resolved
  aliases : List Bytes
  deriving DecidableEq, Repr

def Compiled.routes (c : Compiled) : List Bus.Route := c.resolved.map Resolved.route

/-- `CompileAll`; `none` is an error of one of its reads. -/
def compileAll (q : Queries) : Option Compiled :=
  q.listProfiles.bind fun profiles => q.listTargets.bind fun targets =>
    let tunnels := resolveTunnels profiles.rows
    (resolveTargets q (nameByID profiles.rows) (peerByProfile tunnels) targets.rows).map
      fun resolved =>
        { tunnels, resolved
          aliases := (targets.rows.filter TargetHost.enabled).map TargetHost.publicAlias }

end HelixProxy.Routing
