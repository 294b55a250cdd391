import HelixProxy.GoText
import Mathlib.Data.Rat.Floor

/-!
# The rows of the control-plane store

`internal/store`: the row types, JSON documents as `encoding/json` decodes them,
and the read side of `Queries`. A query that fails is `none`.
-/

namespace HelixProxy.Store

set_option autoImplicit false

/-- A decoded JSON value. A number is the value of the float64, taken exactly, or
`overflow` if it is beyond every float64. -/
inductive Json where
  | null
  | bool (b : Bool)
  | number (q : Rat)
  | overflow
  | string (s : Bytes)
  | array (items : List Json)
  | object (members : List (Bytes × Json))

mutual

/-- No number of the value is beyond float64. -/
def Json.readable : Json → Bool
  | .overflow => false
  | .array items => readableItems items
  | .object members => readableMembers members
  | _ => true

def readableItems : List Json → Bool
  | [] => true
  | v :: vs => v.readable && readableItems vs

def readableMembers : List (Bytes × Json) → Bool
  | [] => true
  | (_, v) :: ms => v.readable && readableMembers ms

end

/-- The bytes of a `config`: none, no JSON, or one value. -/
inductive RawConfig where
  | absent
  | malformed
  | document (v : Json)

/-- `json.Valid`, to which the size of a number is nothing. -/
def RawConfig.wellFormed : RawConfig → Bool
  | .malformed => false
  | _ => true

/-- `json.Unmarshal` into a `map[string]any`: only an object or null is accepted, and no
number beyond float64 anywhere in it. -/
def RawConfig.toMap : RawConfig → Option (List (Bytes × Json))
  | .document (.object members) => if readableMembers members then some members else none
  | .document .null => some []
  | _ => none

/-- Map lookup; the last of two equal keys wins. -/
def lookupKey (m : List (Bytes × Json)) (key : Bytes) : Option Json :=
  (m.reverse.find? fun kv => kv.1 = key).map Prod.snd

inductive VPNType where
  | wireguard
  | openvpn
  | legacy
  deriving DecidableEq, Repr

structure VPNProfile where
  id : Bytes
  name : Bytes
  type : VPNType := .wireguard
  config : RawConfig := .document (.object [])
  secretRef : Bytes := []
  enabled : Bool := true

/-- The empty `vpnProfileID` stands for SQL NULL. -/
structure TargetHost where
  id : Bytes
  publicAlias : Bytes
  privateIP : Bytes
  port : Int := 80
  protocol : Bytes := lit "http"
  vpnProfileID : Bytes := []
  healthCheck : Bytes := []
  enabled : Bool := true

structure TargetTunnelTier where
  targetID : Bytes
  vpnProfileID : Bytes
  tier : Int
  deriving DecidableEq, Repr

/-- What `ListProfiles` can return: ids are the primary key of `vpn_profiles`
and names are unique. -/
structure Profiles where
  rows : List VPNProfile
  ids_nodup : (rows.map VPNProfile.id).Nodup
  names_nodup : (rows.map VPNProfile.name).Nodup

structure Targets where
  rows : List TargetHost
  aliases_nodup : (rows.map TargetHost.publicAlias).Nodup

/-- The reads a compile pass makes. They are separate statements, so nothing
ties what they return to each other. -/
structure Queries where
  listProfiles : Option Profiles
  listTargets : Option Targets
  listTiers : Bytes → Option (List TargetTunnelTier)

theorem Profiles.eq_of_name (ps : Profiles) {p q : VPNProfile} (hp : p ∈ ps.rows)
    (hq : q ∈ ps.rows) (h : p.name = q.name) : p = q :=
  List.inj_on_of_nodup_map ps.names_nodup hp hq h

theorem Profiles.eq_of_id (ps : Profiles) {p q : VPNProfile} (hp : p ∈ ps.rows)
    (hq : q ∈ ps.rows) (h : p.id = q.id) : p = q :=
  List.inj_on_of_nodup_map ps.ids_nodup hp hq h

theorem Targets.eq_of_alias (ts : Targets) {s t : TargetHost} (hs : s ∈ ts.rows)
    (ht : t ∈ ts.rows) (h : s.publicAlias = t.publicAlias) : s = t :=
  List.inj_on_of_nodup_map ts.aliases_nodup hs ht h

end HelixProxy.Store
