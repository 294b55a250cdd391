import HelixProxy.Store
import HelixProxy.Utf8

/-!
# The tables of the control plane

The schema of `sql/schema.sql` and the writing statements of
`internal/store/postgres.go`, with the constraints, defaults and cascades that
decide whether a statement succeeds and what it changes. Timestamps are left
out, and so are the triggers that set them. A uuid that a statement would generate
is a parameter.
-/

namespace HelixProxy.Store

set_option autoImplicit false

/-- Empty match columns and an empty target stand for SQL NULL. -/
structure ProxyRule where
  id : Bytes := []
  priority : Int
  matchHost : Bytes
  matchPath : Bytes
  targetHostID : Bytes
  enabled : Bool
  deriving DecidableEq, Repr

structure ProxyUser where
  id : Bytes := []
  username : Bytes
  secretRef : Bytes
  role : Bytes
  enabled : Bool
  deriving DecidableEq, Repr

inductive DetailValue where
  | text (s : Bytes)
  | int (n : Int)
  deriving DecidableEq, Repr

structure AuditLogEntry where
  actor : Bytes
  action : Bytes
  detail : List (Bytes × DetailValue)
  deriving DecidableEq, Repr

structure Tables where
  vpnProfiles : List VPNProfile := []
  targetHosts : List TargetHost := []
  tiers : List TargetTunnelTier := []
  proxyRules : List ProxyRule := []
  proxyUsers : List ProxyUser := []
  auditLog : List AuditLogEntry := []

inductive SqlError where
  | invalidInput (column : Bytes)
  | tooLong (column : Bytes)
  | outOfRange (column : Bytes)
  | violates (constraint : Bytes)
  | noRows
  deriving DecidableEq, Repr

/-- The input conversions of the server, each with the form that it keeps a value in, and
the text of its errors. -/
structure Server where
  uuid : Bytes → Option Bytes
  inet : Bytes → Option Bytes
  jsonb : Json → Option Json
  errorText : SqlError → Bytes

/-- What a `jsonb` column keeps of a text. -/
def Server.config (pg : Server) : RawConfig → Option RawConfig
  | .document j => (pg.jsonb j).map .document
  | _ => none

/-- `NULLIF(s,'')::uuid`, with NULL as the empty text. -/
def Server.nullableUUID (pg : Server) (s : Bytes) : Option Bytes :=
  if s = [] then some [] else pg.uuid s

/-- Text the server takes at all: valid UTF-8 without a NUL. -/
def storable (s : Bytes) : Bool := decide (Utf8.WellFormed s) && !s.contains 0

/-- A `varchar(n)` column takes a longer text only if spaces are all it has to lose. -/
def varchar (n : Nat) (s : Bytes) : Bool := ((Utf8.runes s).drop n).all (· == 32)

/-- What a `varchar(n)` column keeps of a text. -/
def assigned (n : Nat) (s : Bytes) : Bytes := ((Utf8.segments s).take n).flatMap Prod.snd

def int4 (n : Int) : Bool := -2 ^ 31 ≤ n && n < 2 ^ 31

/-- A statement that succeeds with `x` if all its conditions hold, and fails with
the error of the first that does not. -/
def guarded {α : Type} (checks : List (Bool × SqlError)) (x : α) : Except SqlError α :=
  match checks.find? (!·.1) with
  | some (_, e) => .error e
  | none => .ok x

theorem guarded_eq_ok {α : Type} {checks : List (Bool × SqlError)} {x y : α}
    (h : guarded checks x = .ok y) : x = y ∧ ∀ c ∈ checks, c.1 = true := by
  unfold guarded at h
  split at h
  · cases h
  · next hn => exact ⟨Except.ok.inj h, by simpa using hn⟩

/-- The checks of a text that goes into a `varchar(n)` column. -/
def text (column : Bytes) (n : Nat) (s : Bytes) : List (Bool × SqlError) :=
  [(storable s, .invalidInput column), (varchar n s, .tooLong column)]

def profileChecks (pg : Server) (v : VPNProfile) : List (Bool × SqlError) :=
  text (lit "name") 255 v.name ++
    [((pg.config v.config).isSome, .invalidInput (lit "config"))] ++
    text (lit "secret_ref") 255 v.secretRef

/-- The row a profile is stored as, apart from its id. -/
def VPNProfile.stored (pg : Server) (v : VPNProfile) : VPNProfile :=
  { v with
    name := assigned 255 v.name, config := (pg.config v.config).getD v.config
    secretRef := assigned 255 v.secretRef }

def sqlUpsertProfile (pg : Server) (newID : Bytes) (v : VPNProfile) (t : Tables) :
    Except SqlError (Tables × Bytes) :=
  let checks := profileChecks pg v
  let v := v.stored pg
  match t.vpnProfiles.find? (·.name = v.name) with
  | some row => guarded checks
      ({ t with vpnProfiles := t.vpnProfiles.map fun p =>
          if p.name = v.name then { v with id := p.id } else p }, row.id)
  | none => guarded
      (checks ++ [(!t.vpnProfiles.any (·.id = newID), .violates (lit "vpn_profiles_pkey"))])
      ({ t with vpnProfiles := t.vpnProfiles ++ [{ v with id := newID }] }, newID)

/-- The targets of a deleted profile lose it, its tiers go with it. -/
def sqlDeleteProfile (pg : Server) (id : Bytes) (t : Tables) : Except SqlError Tables :=
  match pg.uuid id with
  | none => .error (.invalidInput (lit "id"))
  | some u => .ok
      { t with
        vpnProfiles := t.vpnProfiles.filter (·.id ≠ u)
        targetHosts := t.targetHosts.map fun h =>
          if h.vpnProfileID = u then { h with vpnProfileID := [] } else h
        tiers := t.tiers.filter (·.vpnProfileID ≠ u) }

def targetChecks (v : TargetHost) : List (Bool × SqlError) :=
  text (lit "public_alias") 255 v.publicAlias ++
    [(int4 v.port, .outOfRange (lit "port")),
     (decide (1 ≤ v.port ∧ v.port ≤ 65535), .violates (lit "target_hosts_port_chk"))] ++
    text (lit "protocol") 10 v.protocol ++
    [([lit "http", lit "https", lit "tcp", lit "socks5"].contains (assigned 10 v.protocol),
      .violates (lit "target_hosts_protocol_chk"))] ++
    text (lit "health_check") 500 v.healthCheck

def sqlUpsertTarget (pg : Server) (newID : Bytes) (v : TargetHost) (t : Tables) :
    Except SqlError (Tables × Bytes) :=
  match pg.inet v.privateIP, pg.nullableUUID v.vpnProfileID with
  | none, _ => .error (.invalidInput (lit "private_ip"))
  | some _, none => .error (.invalidInput (lit "vpn_profile_id"))
  | some ip, some profile =>
    let checks := targetChecks v ++ [(profile = [] || t.vpnProfiles.any (·.id = profile),
      .violates (lit "target_hosts_vpn_profile_id_fkey"))]
    let v : TargetHost :=
      { v with
        publicAlias := assigned 255 v.publicAlias, privateIP := ip
        protocol := assigned 10 v.protocol, vpnProfileID := profile
        healthCheck := assigned 500 v.healthCheck }
    match t.targetHosts.find? (·.publicAlias = v.publicAlias) with
    | some row => guarded checks
        ({ t with targetHosts := t.targetHosts.map fun h =>
            if h.publicAlias = v.publicAlias then { v with id := h.id } else h }, row.id)
    | none => guarded
        (checks ++ [(!t.targetHosts.any (·.id = newID), .violates (lit "target_hosts_pkey"))])
        ({ t with targetHosts := t.targetHosts ++ [{ v with id := newID }] }, newID)

/-- The tiers and rules of a deleted target go with it. -/
def sqlDeleteTarget (pg : Server) (id : Bytes) (t : Tables) : Except SqlError Tables :=
  match pg.uuid id with
  | none => .error (.invalidInput (lit "id"))
  | some u => .ok
      { t with
        targetHosts := t.targetHosts.filter (·.id ≠ u)
        tiers := t.tiers.filter (·.targetID ≠ u)
        proxyRules := t.proxyRules.filter (·.targetHostID ≠ u) }

/-- Read before a row is looked for. -/
def ruleInputs (v : ProxyRule) : List (Bool × SqlError) :=
  [(int4 v.priority, .outOfRange (lit "priority")),
   (storable v.matchHost, .invalidInput (lit "match_host")),
   (storable v.matchPath, .invalidInput (lit "match_path"))]

def ruleChecks (v : ProxyRule) : List (Bool × SqlError) :=
  [(varchar 255 v.matchHost, .tooLong (lit "match_host")),
   (varchar 500 v.matchPath, .tooLong (lit "match_path")),
   (v.matchHost ≠ [] || v.matchPath ≠ [], .violates (lit "proxy_rules_match_present_chk"))]

def ruleTarget (target : Bytes) (t : Tables) : List (Bool × SqlError) :=
  [(target = [] || t.targetHosts.any (·.id = target),
    .violates (lit "proxy_rules_target_host_id_fkey"))]

/-- The row a rule is stored as. -/
def ProxyRule.stored (v : ProxyRule) (id target : Bytes) : ProxyRule :=
  { v with
    id, matchHost := assigned 255 v.matchHost, matchPath := assigned 500 v.matchPath
    targetHostID := target }

def sqlInsertRule (pg : Server) (newID : Bytes) (v : ProxyRule) (t : Tables) :
    Except SqlError (Tables × Bytes) :=
  match pg.nullableUUID v.targetHostID with
  | none => .error (.invalidInput (lit "target_host_id"))
  | some target =>
    guarded (ruleInputs v ++ ruleChecks v ++ ruleTarget target t ++
        [(!t.proxyRules.any (·.id = newID), .violates (lit "proxy_rules_pkey"))])
      ({ t with proxyRules := t.proxyRules ++ [v.stored newID target] }, newID)

def sqlUpdateRule (pg : Server) (v : ProxyRule) (t : Tables) : Except SqlError (Tables × Bytes) :=
  match pg.uuid v.id, pg.nullableUUID v.targetHostID with
  | none, _ => .error (.invalidInput (lit "id"))
  | some _, none => .error (.invalidInput (lit "target_host_id"))
  | some id, some target =>
    guarded (ruleInputs v ++ [(t.proxyRules.any (·.id = id), SqlError.noRows)] ++ ruleChecks v ++
        ruleTarget target t)
      ({ t with proxyRules := t.proxyRules.map fun r =>
          if r.id = id then v.stored id target else r }, id)

def sqlDeleteRule (pg : Server) (id : Bytes) (t : Tables) : Except SqlError Tables :=
  match pg.uuid id with
  | none => .error (.invalidInput (lit "id"))
  | some u => .ok { t with proxyRules := t.proxyRules.filter (·.id ≠ u) }

def sqlUpsertTier (pg : Server) (v : TargetTunnelTier) (t : Tables) : Except SqlError Tables :=
  match pg.uuid v.targetID, pg.uuid v.vpnProfileID with
  | none, _ => .error (.invalidInput (lit "target_host_id"))
  | some _, none => .error (.invalidInput (lit "vpn_profile_id"))
  | some target, some profile =>
    let v : TargetTunnelTier := ⟨target, profile, v.tier⟩
    let sameSlot (x : TargetTunnelTier) : Bool := x.targetID = target && x.tier = v.tier
    guarded [(int4 v.tier, .outOfRange (lit "tier")),
        (0 ≤ v.tier, .violates (lit "target_tunnel_tiers_tier_chk")),
        (t.targetHosts.any (·.id = target), .violates (lit "target_tunnel_tiers_target_host_id_fkey")),
        (t.vpnProfiles.any (·.id = profile), .violates (lit "target_tunnel_tiers_vpn_profile_id_fkey")),
        (!t.tiers.any fun x => x.targetID = target && x.vpnProfileID = profile && !sameSlot x,
          .violates (lit "target_tunnel_tiers_unique_profile"))]
      { t with tiers := if t.tiers.any sameSlot then
          t.tiers.map fun x => if sameSlot x then v else x
        else t.tiers ++ [v] }

def sqlDeleteTier (pg : Server) (targetID : Bytes) (tier : Int) (t : Tables) :
    Except SqlError Tables :=
  match pg.uuid targetID with
  | none => .error (.invalidInput (lit "target_host_id"))
  | some u => guarded [(int4 tier, .outOfRange (lit "tier"))]
      { t with tiers := t.tiers.filter fun x => !(x.targetID = u && x.tier = tier) }

def userChecks (v : ProxyUser) : List (Bool × SqlError) :=
  text (lit "username") 255 v.username ++ text (lit "secret_ref") 255 v.secretRef ++
    text (lit "role") 50 v.role ++
    [([lit "admin", lit "user"].contains (assigned 50 v.role), .violates (lit "proxy_users_role_chk")),
     ((assigned 255 v.secretRef).any (· ≠ space),
      .violates (lit "proxy_users_secret_ref_nonempty_chk"))]

def sqlUpsertUser (newID : Bytes) (v : ProxyUser) (t : Tables) : Except SqlError (Tables × Bytes) :=
  let checks := userChecks v
  let v : ProxyUser :=
    { v with
      username := assigned 255 v.username, secretRef := assigned 255 v.secretRef
      role := assigned 50 v.role }
  match t.proxyUsers.find? (·.username = v.username) with
  | some row => guarded checks
      ({ t with proxyUsers := t.proxyUsers.map fun u =>
          if u.username = v.username then { v with id := u.id } else u }, row.id)
  | none => guarded
      (checks ++ [(!t.proxyUsers.any (·.id = newID), .violates (lit "proxy_users_pkey"))])
      ({ t with proxyUsers := t.proxyUsers ++ [{ v with id := newID }] }, newID)

def auditChecks (e : AuditLogEntry) : List (Bool × SqlError) :=
  text (lit "actor") 255 e.actor ++ text (lit "action") 100 e.action

/-- The row an entry is stored as. -/
def AuditLogEntry.stored (e : AuditLogEntry) : AuditLogEntry :=
  { e with actor := assigned 255 e.actor, action := assigned 100 e.action }

def sqlAppendAudit (e : AuditLogEntry) (t : Tables) : Except SqlError Tables :=
  guarded (auditChecks e) { t with auditLog := t.auditLog ++ [e.stored] }

inductive Statement where
  | upsertProfile (newID : Bytes) (v : VPNProfile)
  | deleteProfile (id : Bytes)
  | upsertTarget (newID : Bytes) (v : TargetHost)
  | deleteTarget (id : Bytes)
  | insertRule (newID : Bytes) (v : ProxyRule)
  | updateRule (v : ProxyRule)
  | deleteRule (id : Bytes)
  | upsertTier (v : TargetTunnelTier)
  | deleteTier (targetID : Bytes) (tier : Int)
  | upsertUser (newID : Bytes) (v : ProxyUser)

/-- The tables after a statement and the id it returns, empty if it returns none. -/
def Statement.exec (pg : Server) (t : Tables) : Statement → Except SqlError (Tables × Bytes)
  | .upsertProfile newID v => sqlUpsertProfile pg newID v t
  | .deleteProfile id => (sqlDeleteProfile pg id t).map (·, [])
  | .upsertTarget newID v => sqlUpsertTarget pg newID v t
  | .deleteTarget id => (sqlDeleteTarget pg id t).map (·, [])
  | .insertRule newID v => sqlInsertRule pg newID v t
  | .updateRule v => sqlUpdateRule pg v t
  | .deleteRule id => (sqlDeleteRule pg id t).map (·, [])
  | .upsertTier v => (sqlUpsertTier pg v t).map (·, [])
  | .deleteTier targetID tier => (sqlDeleteTier pg targetID tier t).map (·, [])
  | .upsertUser newID v => sqlUpsertUser newID v t

theorem map_ok_fst {ε α : Type} {x : Except ε α} {y : α} {z : Bytes}
    (h : x.map (·, ([] : Bytes)) = .ok (y, z)) : x = .ok y := by
  cases x with
  | error e => cases h
  | ok a => exact congrArg Except.ok (Prod.mk.inj (Except.ok.inj h)).1

/-- No statement on the entity tables writes the audit log. -/
theorem Statement.exec_auditLog {pg : Server} {t t' : Tables} {stmt : Statement} {id : Bytes}
    (h : stmt.exec pg t = .ok (t', id)) : t'.auditLog = t.auditLog := by
  cases stmt with
  | upsertProfile newID v =>
    simp only [exec, sqlUpsertProfile] at h
    split at h <;> cases (guarded_eq_ok h).1 <;> rfl
  | deleteProfile id =>
    have h := map_ok_fst h
    unfold sqlDeleteProfile at h
    split at h <;> cases h
    rfl
  | upsertTarget newID v =>
    simp only [exec, sqlUpsertTarget] at h
    split at h
    · cases h
    · cases h
    · split at h <;> cases (guarded_eq_ok h).1 <;> rfl
  | deleteTarget id =>
    have h := map_ok_fst h
    unfold sqlDeleteTarget at h
    split at h <;> cases h
    rfl
  | insertRule newID v =>
    simp only [exec, sqlInsertRule] at h
    split at h
    · cases h
    · cases (guarded_eq_ok h).1
      rfl
  | updateRule v =>
    simp only [exec, sqlUpdateRule] at h
    split at h
    · cases h
    · cases h
    · cases (guarded_eq_ok h).1
      rfl
  | deleteRule id =>
    have h := map_ok_fst h
    unfold sqlDeleteRule at h
    split at h <;> cases h
    rfl
  | upsertTier v =>
    have h := map_ok_fst h
    simp only [sqlUpsertTier] at h
    split at h
    · cases h
    · cases h
    · cases (guarded_eq_ok h).1
      rfl
  | deleteTier targetID tier =>
    have h := map_ok_fst h
    unfold sqlDeleteTier at h
    split at h
    · cases h
    · cases (guarded_eq_ok h).1
      rfl
  | upsertUser newID v =>
    simp only [exec, sqlUpsertUser] at h
    split at h <;> cases (guarded_eq_ok h).1 <;> rfl

end HelixProxy.Store
