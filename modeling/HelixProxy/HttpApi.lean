import HelixProxy.EntityDocuments
import HelixProxy.HttpPaths
import HelixProxy.Pac
import HelixProxy.RuleLookup

/-!
# The control API over HTTP

The routes of `internal/api/server.go` and the handlers behind them, from the path
and the body of a request to the text of the answer.
-/

namespace HelixProxy.Store

set_option autoImplicit false

/-- An `id` is compared as a uuid. -/
def sqlGetProfile (pg : Server) (id : Bytes) (t : Tables) : Except SqlError VPNProfile :=
  match pg.uuid id with
  | none => .error (.invalidInput (lit "id"))
  | some u =>
    match t.vpnProfiles.find? (·.id = u) with
    | some p => .ok p
    | none => .error .noRows

/-- `sqlListTiers` for an id that is given as a text. -/
def sqlTiersOf (pg : Server) (targetID : Bytes) (t : Tables) :
    Except SqlError (List TargetTunnelTier) :=
  match pg.uuid targetID with
  | none => .error (.invalidInput (lit "target_host_id"))
  | some u => .ok (sqlListTiers u t)

def sqlListUsers (rd : Reader) (t : Tables) : List ProxyUser :=
  t.proxyUsers.insertionSort fun u v => rd.before u.username v.username

end HelixProxy.Store

namespace HelixProxy.Api

open Store JsonText ServeMux OrderBy
set_option autoImplicit false

inductive Handler where
  | listProfiles
  | getProfile
  | putProfile
  | deleteProfile
  | listTargets
  | getTarget
  | putTarget
  | deleteTarget
  | listRules
  | getRuleByHost
  | putRule
  | deleteRule
  | listTiers
  | putTier
  | deleteTier
  | listUsers
  | putUser
  | events
  | metrics
  | proxyPAC
  deriving DecidableEq, Repr

def routes : List (Pattern × Handler) :=
  [(parsePattern (lit "GET /api/profiles"), .listProfiles),
   (parsePattern (lit "GET /api/profiles/\x7bid\x7d"), .getProfile),
   (parsePattern (lit "PUT /api/profiles"), .putProfile),
   (parsePattern (lit "DELETE /api/profiles/\x7bid\x7d"), .deleteProfile),
   (parsePattern (lit "GET /api/targets"), .listTargets),
   (parsePattern (lit "GET /api/targets/\x7balias\x7d"), .getTarget),
   (parsePattern (lit "PUT /api/targets"), .putTarget),
   (parsePattern (lit "DELETE /api/targets/\x7bid\x7d"), .deleteTarget),
   (parsePattern (lit "GET /api/rules"), .listRules),
   (parsePattern (lit "GET /api/rules/\x7bhost\x7d"), .getRuleByHost),
   (parsePattern (lit "PUT /api/rules"), .putRule),
   (parsePattern (lit "DELETE /api/rules/\x7bid\x7d"), .deleteRule),
   (parsePattern (lit "GET /api/tiers/\x7btargetID\x7d"), .listTiers),
   (parsePattern (lit "PUT /api/tiers"), .putTier),
   (parsePattern (lit "DELETE /api/tiers/\x7btargetID\x7d/\x7btier\x7d"), .deleteTier),
   (parsePattern (lit "GET /api/users"), .listUsers),
   (parsePattern (lit "PUT /api/users"), .putUser),
   (parsePattern (lit "GET /events"), .events),
   (parsePattern (lit "GET /metrics"), .metrics),
   (parsePattern (lit "GET /proxy.pac"), .proxyPAC)]

/-- The mux of the plain listener. -/
def metricsRoutes : List (Pattern × Handler) := [(parsePattern (lit "GET /metrics"), .metrics)]

/-- What the handlers work with besides the tables. -/
structure Backend where
  codec : Codec
  view : View
  created : Bytes → Int
  order : Sorting (Precedes created)
  printable : Nat → Bool
  sort : Pac.SliceSort

/-- A request as it arrives, its path still escaped. -/
structure HttpRequest where
  method : Bytes
  path : Bytes
  body : Bytes := []

/-- `events` and `metrics` are the answers that take no shape from the tables: the
stream of events and the page of the Prometheus handler. -/
inductive Reply where
  | page (code : Nat) (body : Bytes)
  | redirect (path : Bytes)
  | events
  | metrics
  deriving DecidableEq

def Response.reply (r : Response) : Reply :=
  .page r.code (if r.body.isEmpty then [] else writeJSON (r.body.map fun m => .string m.1 m.2))

/-- `json.Encoder` on a slice. -/
def writeList (docs : List (List Member)) : Bytes :=
  lit "[" ++ ([0x2C].intercalate (docs.map writeObject) ++ lit "]\n")

/-! The reads of the store, as the handlers call them. -/

def read {α : Type} (env : Env) (label : Bytes) (found : Except SqlError α) : Except StoreError α :=
  match env.entityFault with
  | some e => .error (.failed (label ++ lit ": " ++ e))
  | none =>
    match found with
    | .ok x => .ok x
    | .error e => .error (.failed (label ++ lit ": " ++ env.pg.errorText e))

def readRow {α : Type} (env : Env) (label : Bytes) (found : Except SqlError α) :
    Except StoreError α :=
  match env.entityFault, found with
  | none, .error .noRows => .error .notFound
  | _, _ => read env label found

def answerList (docs : Except StoreError (List (List Member))) : Reply :=
  match docs with
  | .error e => (internalError e).reply
  | .ok ds => .page 200 (writeList ds)

def answerRow (missing : Bytes) (doc : Except StoreError (List Member)) : Reply :=
  match doc with
  | .error .notFound => (writeErr 404 missing).reply
  | .error e => (internalError e).reply
  | .ok d => .page 200 (writeJSON d)

/-- The change that a request asks a handler for; the others only read. -/
def Handler.call (codec : Codec) (value : Bytes → Bytes) (body : Bytes) : Handler → Option Call
  | .putProfile =>
    some (.putProfile (decodeJSON codec (profiles codec).fields (profiles codec).zero body))
  | .deleteProfile => some (.deleteProfile (value (lit "id")))
  | .putTarget => some (.putTarget (decodeJSON codec targets.fields targets.zero body))
  | .deleteTarget => some (.deleteTarget (value (lit "id")))
  | .putRule => some (.putRule (decodeJSON codec rules.fields rules.zero body))
  | .deleteRule => some (.deleteRule (value (lit "id")))
  | .putTier => some (.putTier (decodeJSON codec tiers.fields tiers.zero body))
  | .deleteTier => some (.deleteTier (value (lit "targetID")) (value (lit "tier")))
  | .putUser => some (.putUser (decodeJSON codec users.fields users.zero body))
  | _ => none

/-- What the handlers that only read answer. -/
def Handler.view (b : Backend) (env : Env) (value : Bytes → Bytes) (t : Tables) : Handler → Reply
  | .listProfiles => answerList <| (read env (lit "store: list profiles")
      (.ok (sqlListProfiles b.view.rd t))).map (·.map (profileToDTO b.view))
  | .getProfile => answerRow (lit "profile not found") <|
      (readRow env (lit "store: get profile") (sqlGetProfile env.pg (value (lit "id")) t)).map
        (profileToDTO b.view)
  | .listTargets => answerList <| (read env (lit "store: list targets")
      (.ok (sqlListTargets b.view.rd t))).map (·.map targetToDTO)
  | .getTarget => answerRow (lit "target not found") <|
      (readRow env (lit "store: get target")
        (sqlGetTargetHost b.view.rd (value (lit "alias")) t)).map targetToDTO
  | .listRules => answerList <| (read env (lit "store: list rules")
      (.ok (Api.listRules b.order t))).map (·.map ruleToDTO)
  | .getRuleByHost => answerRow (lit "no enabled rule for host") <|
      (readRow env (lit "store: get rule by host")
        (sqlGetRuleByHost b.order (value (lit "host")) t)).map ruleToDTO
  | .listTiers => answerList <| (read env (lit "store: list tiers")
      (sqlTiersOf env.pg (value (lit "targetID")) t)).map (·.map tierToDTO)
  | .listUsers => answerList <| (read env (lit "store: list users")
      (.ok (sqlListUsers b.view.rd t))).map (·.map userToDTO)
  | .proxyPAC =>
    match Api.proxyPAC b.printable b.sort (read env (lit "store: list targets")
        (.ok (sqlListTargets b.view.rd t))) with
    | .error r => r.reply
    | .ok pac => .page 200 pac.body
  | .events => .events
  | _ => .metrics

def Handler.serve (b : Backend) (env : Env) (value : Bytes → Bytes) (body : Bytes) (h : Handler)
    (t : Tables) : Tables × Reply :=
  match h.call b.codec value body with
  | some call => ((call.serve env t).1, (call.serve env t).2.reply)
  | none => (t, h.view b env value t)

/-- A mux with its handlers. -/
def serveHTTP (mux : List (Pattern × Handler)) (b : Backend) (env : Env) (req : HttpRequest)
    (t : Tables) : Tables × Reply :=
  match dispatch mux req.method req.path with
  | .handler p h found => h.serve b env (pathValue p found) req.body t
  | .redirect path => (t, .redirect path)
  | .methodNotAllowed => (t, .page 405 (lit "Method Not Allowed\n"))
  | .notFound => (t, .page 404 (lit "404 page not found\n"))
  | .badRequest => (t, .page 400 (lit "400 Bad Request"))

theorem routes_orderly : Orderly routes where
  separate := by decide
  words := by decide
  nonempty := by decide
  methods := by decide

end HelixProxy.Api
