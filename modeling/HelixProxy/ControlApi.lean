import HelixProxy.Library.Transaction
import HelixProxy.Postgres

/-!
# The mutating handlers of the control API

`internal/api/handlers.go`: each handler validates its input and then makes one
store call and one audit append inside a single transaction. A request body is
what `decodeJSON` made of it: the values it decoded, or the text of its error.
-/

namespace HelixProxy.Api

open Store Transaction
set_option autoImplicit false

/-- What surrounds one request: the certificate CN of the caller, the uuid the
server would generate, and the texts of the errors injected at the four points
where a call can fail. -/
structure Env where
  pg : Server
  peerCN : Option Bytes := none
  newID : Bytes := []
  beginFault : Option Bytes := none
  entityFault : Option Bytes := none
  auditFault : Option Bytes := none
  commitFault : Option Bytes := none

inductive StoreError where
  | notFound
  | failed (text : Bytes)
  deriving DecidableEq, Repr

def StoreError.text : StoreError → Bytes
  | .notFound => lit "store: not found"
  | .failed text => text

/-- `fmt.Errorf(label + ": %w", err)`; the sentinel stays recognisable. -/
def StoreError.wrap (label : Bytes) : StoreError → StoreError
  | .notFound => .notFound
  | .failed text => .failed (label ++ lit ": " ++ text)

/-- A code and a JSON object of strings; a response without a body has none. -/
structure Response where
  code : Nat
  body : List (Bytes × Bytes) := []
  deriving DecidableEq, Repr

def writeErr (code : Nat) (msg : Bytes) : Response := ⟨code, [(lit "error", msg)]⟩

def badRequest (msg : Bytes) : Response := writeErr 400 msg

def internalError (e : StoreError) : Response := writeErr 500 e.text

def writeID (id : Bytes) : Response := ⟨200, [(lit "id", id)]⟩

def noContent : Response := ⟨204, []⟩

structure ProfileDTO where
  name : Bytes
  type : Bytes := []
  config : RawConfig := .absent
  secretRef : Bytes := []
  enabled : Bool := false

structure TargetDTO where
  publicAlias : Bytes
  privateIP : Bytes
  port : Int := 0
  protocol : Bytes := []
  vpnProfileID : Bytes := []
  healthCheck : Bytes := []
  enabled : Bool := false

structure RuleDTO where
  id : Bytes := []
  priority : Int := 0
  matchHost : Bytes := []
  matchPath : Bytes := []
  targetHostID : Bytes := []
  enabled : Bool := false

structure TierDTO where
  targetID : Bytes := []
  vpnProfileID : Bytes := []
  tier : Int := 0

structure UserDTO where
  username : Bytes
  secretRef : Bytes := []
  role : Bytes := []
  enabled : Bool := false

def actorFromRequest (env : Env) : Bytes :=
  match env.peerCN with
  | some cn => if cn ≠ [] then cn else lit "unknown"
  | none => lit "unknown"

def auditEntry (env : Env) (action : Bytes) (detail : List (Bytes × DetailValue)) : AuditLogEntry :=
  ⟨actorFromRequest env, action, detail⟩

def query (env : Env) (label : Bytes) (stmt : Statement) (tx : Tables) :
    Except StoreError (Tables × Bytes) :=
  match env.entityFault with
  | some e => .error (.failed (label ++ lit ": " ++ e))
  | none =>
    match stmt.exec env.pg tx with
    | .ok out => .ok out
    | .error e => .error (.failed (label ++ lit ": " ++ env.pg.errorText e))

/-- An UPDATE by id that finds no row is `ErrNotFound`. -/
def queryRow (env : Env) (label : Bytes) (stmt : Statement) (tx : Tables) :
    Except StoreError (Tables × Bytes) :=
  match env.entityFault, stmt.exec env.pg tx with
  | none, .error .noRows => .error .notFound
  | _, _ => query env label stmt tx

def appendAudit (env : Env) (e : AuditLogEntry) (tx : Tables) : Except StoreError Tables :=
  match env.auditFault with
  | some text => .error (.failed (lit "store: append audit: " ++ text))
  | none =>
    match sqlAppendAudit e tx with
    | .ok tx' => .ok tx'
    | .error err => .error (.failed (lit "store: append audit: " ++ env.pg.errorText err))

/-- `mutateWithAudit` under `WithTx`. The mutation yields the id its handler
captures and the audit row to append. -/
def mutateWithAudit (env : Env)
    (mutate : Tables → Except StoreError (Tables × Bytes × AuditLogEntry)) (t : Tables) :
    Tables × Except StoreError Bytes :=
  transact (env.beginFault.map fun e => .failed (lit "store: begin tx: " ++ e))
    (env.commitFault.map fun e => .failed (lit "store: commit tx: " ++ e))
    (fun tx => match mutate tx with
      | .error e => .error e
      | .ok (tx', id, entry) =>
        match appendAudit env entry tx' with
        | .error e => .error (e.wrap (lit "audit write failed"))
        | .ok tx'' => .ok (tx'', id)) t

def finish (env : Env) (call : Tables → Except StoreError (Tables × Bytes)) (action : Bytes)
    (detail : Bytes → List (Bytes × DetailValue)) (onError : StoreError → Response)
    (onOK : Bytes → Response) (t : Tables) : Tables × Response :=
  match mutateWithAudit env (fun tx => match call tx with
      | .error e => .error e
      | .ok (tx', id) => .ok (tx', id, auditEntry env action (detail id))) t with
  | (t', .ok id) => (t', onOK id)
  | (t', .error e) => (t', onError e)

/-- `Type` as `putProfile` admits it; the outer `none` is an unknown type. -/
def readType (s : Bytes) : Option (Option VPNType) :=
  if s = [] then some none
  else if s = lit "wireguard" then some (some .wireguard)
  else if s = lit "openvpn" then some (some .openvpn)
  else if s = lit "legacy" then some (some .legacy)
  else none

def upsertProfile (env : Env) (d : ProfileDTO) (type : Option VPNType) : Statement :=
  .upsertProfile env.newID
    { id := [], name := d.name, type := type.getD .wireguard
      config := match d.config with
        | .absent => .document (.object [])
        | c => c
      secretRef := d.secretRef, enabled := d.enabled }

def upsertTarget (env : Env) (d : TargetDTO) : Statement :=
  .upsertTarget env.newID
    { id := [], publicAlias := d.publicAlias, privateIP := d.privateIP
      port := if d.port = 0 then 80 else d.port
      protocol := if d.protocol = [] then lit "http" else d.protocol
      vpnProfileID := d.vpnProfileID, healthCheck := d.healthCheck, enabled := d.enabled }

def upsertRule (env : Env) (d : RuleDTO) : Statement :=
  let v : ProxyRule := ⟨d.id, d.priority, d.matchHost, d.matchPath, d.targetHostID, d.enabled⟩
  if d.id ≠ [] then .updateRule v else .insertRule env.newID v

def upsertUser (env : Env) (d : UserDTO) : Statement :=
  .upsertUser env.newID
    ⟨[], d.username, d.secretRef, if d.role = [] then lit "user" else d.role, d.enabled⟩

def putProfile (env : Env) (body : Except Bytes ProfileDTO) (t : Tables) : Tables × Response :=
  match body with
  | .error e => (t, badRequest (lit "invalid JSON: " ++ e))
  | .ok d =>
    if Strings.trimSpace d.name = [] then (t, badRequest (lit "name is required"))
    else match readType d.type with
      | none => (t, badRequest (lit "type must be wireguard|openvpn|legacy"))
      | some type =>
        if !d.config.wellFormed then (t, badRequest (lit "config must be a valid JSON object"))
        else finish env (query env (lit "store: upsert profile") (upsertProfile env d type))
          (lit "profile.upsert") (fun id => [(lit "id", .text id), (lit "name", .text d.name)])
          internalError writeID t

/-- The handlers that delete by id differ in their statement and action. -/
def deleteByID (env : Env) (stmt : Statement) (label action id : Bytes) (t : Tables) :
    Tables × Response :=
  finish env (query env label stmt) action (fun _ => [(lit "id", .text id)]) internalError
    (fun _ => noContent) t

def deleteProfile (env : Env) (id : Bytes) : Tables → Tables × Response :=
  deleteByID env (.deleteProfile id) (lit "store: delete profile") (lit "profile.delete") id

def putTarget (env : Env) (body : Except Bytes TargetDTO) (t : Tables) : Tables × Response :=
  match body with
  | .error e => (t, badRequest (lit "invalid JSON: " ++ e))
  | .ok d =>
    if Strings.trimSpace d.publicAlias = [] then (t, badRequest (lit "public_alias is required"))
    else if Strings.trimSpace d.privateIP = [] then (t, badRequest (lit "private_ip is required"))
    else if d.port < 0 ∨ d.port > 65535 then (t, badRequest (lit "port must be 0..65535"))
    else finish env (query env (lit "store: upsert target") (upsertTarget env d))
      (lit "target.upsert")
      (fun id => [(lit "id", .text id), (lit "public_alias", .text d.publicAlias)])
      internalError writeID t

def deleteTarget (env : Env) (id : Bytes) : Tables → Tables × Response :=
  deleteByID env (.deleteTarget id) (lit "store: delete target") (lit "target.delete") id

/-- `putRule` alone maps `ErrNotFound` to 404. -/
def ruleError : StoreError → Response
  | .notFound => writeErr 404 (lit "rule id not found")
  | e => internalError e

def putRule (env : Env) (body : Except Bytes RuleDTO) (t : Tables) : Tables × Response :=
  match body with
  | .error e => (t, badRequest (lit "invalid JSON: " ++ e))
  | .ok d =>
    if d.matchHost = [] ∧ d.matchPath = [] then
      (t, badRequest (lit "at least one of match_host / match_path is required"))
    else finish env (queryRow env (lit "store: upsert rule") (upsertRule env d))
      (lit "rule.upsert")
      (fun id => [(lit "id", .text id), (lit "priority", .int d.priority),
        (lit "match_host", .text d.matchHost)])
      ruleError writeID t

def deleteRule (env : Env) (id : Bytes) : Tables → Tables × Response :=
  deleteByID env (.deleteRule id) (lit "store: delete rule") (lit "rule.delete") id

def putTier (env : Env) (body : Except Bytes TierDTO) (t : Tables) : Tables × Response :=
  match body with
  | .error e => (t, badRequest (lit "invalid JSON: " ++ e))
  | .ok d =>
    if d.targetID = [] ∨ d.vpnProfileID = [] then
      (t, badRequest (lit "target_id and vpn_profile_id are required"))
    else if d.tier < 0 then (t, badRequest (lit "tier must be >= 0"))
    else finish env
      (query env (lit "store: upsert tier") (.upsertTier ⟨d.targetID, d.vpnProfileID, d.tier⟩))
      (lit "tier.upsert")
      (fun _ => [(lit "target_id", .text d.targetID), (lit "vpn_profile_id", .text d.vpnProfileID),
        (lit "tier", .int d.tier)])
      internalError (fun _ => ⟨200, [(lit "status", lit "ok")]⟩) t

def deleteTier (env : Env) (targetID tierText : Bytes) (t : Tables) : Tables × Response :=
  match Strconv.atoi tierText with
  | none => (t, badRequest (lit "tier must be an integer"))
  | some tier =>
    finish env (query env (lit "store: delete tier") (.deleteTier targetID tier))
      (lit "tier.delete") (fun _ => [(lit "target_id", .text targetID), (lit "tier", .int tier)])
      internalError (fun _ => noContent) t

def putUser (env : Env) (body : Except Bytes UserDTO) (t : Tables) : Tables × Response :=
  match body with
  | .error e => (t, badRequest (lit "invalid JSON: " ++ e))
  | .ok d =>
    if Strings.trimSpace d.username = [] then (t, badRequest (lit "username is required"))
    else finish env (query env (lit "store: upsert user") (upsertUser env d)) (lit "user.upsert")
      (fun id => [(lit "id", .text id), (lit "username", .text d.username)])
      internalError writeID t

end HelixProxy.Api
