import HelixProxy.HttpRuns
import HelixProxy.Restore

/-!
# Rows and the requests that name them

Whatever rows a store has come to hold, there is a request for each profile and each
target that is answered with its document, and one for each row but a user's that
deletes it. A path cannot name a lone slash, though, and a target may be called so.
-/

namespace HelixProxy.Api

open Store JsonText ServeMux Routes Routing Url Transaction
set_option autoImplicit false

/-- A request for a handler with these values, and what the handler does with it. -/
theorem request_for {p : Pattern} {h : Handler} (hmem : (p, h) ∈ routes) {vs : List Bytes}
    (hvs : Fillable p.segs vs) :
    ∃ path, ∀ b env t, serveHTTP routes b env { method := p.method, path } t =
      h.serve b env (pathValue p vs) [] t := by
  refine ⟨slashed (fill p.segs vs), fun b env t => ?_⟩
  rw [serveHTTP, routes_orderly.dispatch_fill hmem hvs]

theorem fillable_one {p : Pattern} (hp : wildcards p.segs = 1) {v : Bytes} (hv : v ≠ [])
    (hslash : v ≠ [slash]) : Fillable p.segs [v] :=
  ⟨hp.symm, List.forall_mem_singleton.mpr hv, List.forall_mem_singleton.mpr hslash⟩

/-- Some GET request is answered with the document, if the store can be read. -/
def Fetched (pg : Server) (b : Backend) (t : Tables) (doc : List Member) : Prop :=
  ∃ path, ∀ env, env.pg = pg → env.entityFault = none →
    serveHTTP routes b env { method := lit "GET", path } t = (t, .page 200 (writeJSON doc))

/-- Whether the row is in the tables. -/
def Item.Present (t : Tables) : Item → Prop
  | profile p => p ∈ t.vpnProfiles
  | target h => h ∈ t.targetHosts
  | rule r => r ∈ t.proxyRules
  | tier x => x ∈ t.tiers
  | user u => u ∈ t.proxyUsers

/-- Some DELETE request removes the row, if nothing fails around it. -/
def Deletable (pg : Server) (b : Backend) (t : Tables) (item : Item) : Prop :=
  ∃ path, ∀ env, env.pg = pg → env.Quiet →
    (serveHTTP routes b env { method := lit "DELETE", path } t).2 = .page 204 [] ∧
      ¬item.Present (serveHTTP routes b env { method := lit "DELETE", path } t).1

theorem serve_view {h : Handler} {value : Bytes → Bytes} {b : Backend} {env : Env} {t : Tables}
    (hcall : h.call b.codec value [] = none) :
    h.serve b env value [] t = (t, h.view b env value t) := by
  rw [Handler.serve, hcall]

theorem serve_call {h : Handler} {value : Bytes → Bytes} {b : Backend} {env : Env} {t : Tables}
    {call : Call} (hcall : h.call b.codec value [] = some call) :
    h.serve b env value [] t = ((call.serve env t).1, (call.serve env t).2.reply) := by
  rw [Handler.serve, hcall]

theorem answerRow_ok {α : Type} {env : Env} (henv : env.entityFault = none) (label missing : Bytes)
    (doc : α → List Member) (x : α) :
    answerRow missing ((readRow env label (.ok x)).map doc) = .page 200 (writeJSON (doc x)) := by
  simp [readRow, read, henv, answerRow, Except.map]

section Rows

variable {pg : Server} {b : Backend} {t : Tables} (hpg : UuidText pg)
  (hslash : pg.uuid [slash] = none) (hschema : Schema t) (ht : Stored pg t)
include hpg hslash

theorem uuid_fillable {p : Pattern} (hp : wildcards p.segs = 1) {id : Bytes}
    (hid : pg.uuid id = some id) : Fillable p.segs [id] := by
  refine fillable_one hp (hpg.ne_nil hid) ?_
  rintro rfl
  rw [hslash] at hid
  cases hid

include hschema ht

theorem profile_fetched {p : VPNProfile} (hp : p ∈ t.vpnProfiles) :
    Fetched pg b t (profileToDTO b.view p) := by
  have hid := (ht.profiles p hp).id
  obtain ⟨path, hpath⟩ := @request_for (parsePattern (lit "GET /api/profiles/\x7bid\x7d")) .getProfile
    (by decide) [p.id] (uuid_fillable hpg hslash rfl hid)
  refine ⟨path, fun env henv hfault => (hpath b env t).trans ?_⟩
  have hfound : sqlGetProfile env.pg p.id t = .ok p := by
    rw [sqlGetProfile, henv, hid]
    dsimp only
    rw [← List.head?_filter, filter_key_eq hschema.keyed.profile_ids hp]
    rfl
  rw [serve_view rfl]
  change (t, answerRow _ ((readRow env _ (sqlGetProfile env.pg p.id t)).map _)) = _
  rw [hfound, answerRow_ok hfault]

omit hpg hslash in
theorem target_fetched {h : TargetHost} (hh : h ∈ t.targetHosts) (hname : h.publicAlias ≠ [slash]) :
    Fetched pg b t (targetToDTO (b.view.rd.target h)) := by
  have hstored := ht.targets h hh
  have hnonempty : h.publicAlias ≠ [] := by
    intro hempty
    exact hstored.named (by rw [hempty]; rfl)
  have hstorable : storable h.publicAlias = true :=
    storable_iff.mpr ⟨hstored.publicAlias.fits.wellFormed, hstored.publicAlias.fits.noNul⟩
  obtain ⟨path, hpath⟩ := @request_for (parsePattern (lit "GET /api/targets/\x7balias\x7d")) .getTarget
    (by decide) [h.publicAlias] (fillable_one rfl hnonempty hname)
  refine ⟨path, fun env henv hfault => (hpath b env t).trans ?_⟩
  have hfound : sqlGetTargetHost b.view.rd h.publicAlias t = .ok (b.view.rd.target h) := by
    rw [sqlGetTargetHost, if_pos hstorable, ← List.head?_filter,
      filter_key_eq hschema.keyed.target_aliases hh]
    rfl
  rw [serve_view rfl]
  change (t, answerRow _ ((readRow env _ (sqlGetTargetHost _ h.publicAlias t)).map _)) = _
  rw [hfound, answerRow_ok hfault]

end Rows

section Deletes

variable {pg : Server} {b : Backend} {t t' : Tables}

/-- A call that leaves the tables without the row, given that a request can ask for it. -/
theorem deletable_of_call {item : Item} {p : Pattern} {h : Handler} (hmem : (p, h) ∈ routes)
    (hmethod : p.method = lit "DELETE") {vs : List Bytes} (hvs : Fillable p.segs vs) {call : Call}
    (hcall : h.call b.codec (pathValue p vs) [] = some call)
    (hserved : ∀ env, env.pg = pg → env.Quiet →
      ∃ log, call.serve env t = ({ t' with auditLog := log }, noContent))
    (hgone : ∀ log, ¬item.Present { t' with auditLog := log }) : Deletable pg b t item := by
  obtain ⟨path, hpath⟩ := request_for hmem hvs
  refine ⟨path, fun env hserver henv => ?_⟩
  obtain ⟨log, hlog⟩ := hserved env hserver henv
  have hrequest := hpath b env t
  rw [hmethod, serve_call hcall, hlog] at hrequest
  rw [hrequest]
  exact ⟨rfl, hgone log⟩

theorem deleteByID_quiet {stmt : Statement} {out : Bytes} (hexec : stmt.exec pg t = .ok (t', out))
    (label : Bytes) {action : Bytes} (haction : FitsVarchar 100 action) (id : Bytes)
    (env : Env) (hserver : env.pg = pg) (henv : env.Quiet) :
    ∃ log, deleteByID env stmt label action id t = ({ t' with auditLog := log }, noContent) :=
  ⟨_, finish_quiet henv (query_quiet henv label (hserver ▸ hexec)) haction _ _ _⟩

variable (hpg : UuidText pg) (hslash : pg.uuid [slash] = none) (ht : Stored pg t)
include hpg hslash ht

theorem profile_deletable {p : VPNProfile} (hp : p ∈ t.vpnProfiles) :
    Deletable pg b t (.profile p) := by
  have hid := (ht.profiles p hp).id
  obtain ⟨t', hexec, hgone⟩ : ∃ t', (Statement.deleteProfile p.id).exec pg t = .ok (t', []) ∧
      p ∉ t'.vpnProfiles := by
    refine ⟨_, by rw [Statement.exec, sqlDeleteProfile, hid]; rfl, ?_⟩
    simp
  exact deletable_of_call (p := parsePattern (lit "DELETE /api/profiles/\x7bid\x7d"))
    (h := .deleteProfile) (by decide) rfl (uuid_fillable hpg hslash rfl hid) rfl
    (deleteByID_quiet hexec _ (by decide) p.id) fun _ => hgone

theorem target_deletable {h : TargetHost} (hh : h ∈ t.targetHosts) :
    Deletable pg b t (.target h) := by
  have hid := (ht.targets h hh).id
  obtain ⟨t', hexec, hgone⟩ : ∃ t', (Statement.deleteTarget h.id).exec pg t = .ok (t', []) ∧
      h ∉ t'.targetHosts := by
    refine ⟨_, by rw [Statement.exec, sqlDeleteTarget, hid]; rfl, ?_⟩
    simp
  exact deletable_of_call (p := parsePattern (lit "DELETE /api/targets/\x7bid\x7d"))
    (h := .deleteTarget) (by decide) rfl (uuid_fillable hpg hslash rfl hid) rfl
    (deleteByID_quiet hexec _ (by decide) h.id) fun _ => hgone

theorem rule_deletable {r : ProxyRule} (hr : r ∈ t.proxyRules) : Deletable pg b t (.rule r) := by
  have hid := (ht.rules r hr).id
  obtain ⟨t', hexec, hgone⟩ : ∃ t', (Statement.deleteRule r.id).exec pg t = .ok (t', []) ∧
      r ∉ t'.proxyRules := by
    refine ⟨_, by rw [Statement.exec, sqlDeleteRule, hid]; rfl, ?_⟩
    simp
  exact deletable_of_call (p := parsePattern (lit "DELETE /api/rules/\x7bid\x7d"))
    (h := .deleteRule) (by decide) rfl (uuid_fillable hpg hslash rfl hid) rfl
    (deleteByID_quiet hexec _ (by decide) r.id) fun _ => hgone

theorem tier_deletable {x : TargetTunnelTier} (hx : x ∈ t.tiers) : Deletable pg b t (.tier x) := by
  obtain ⟨hid, -, htier⟩ := ht.tiers x hx
  have hread : Strconv.atoi (Strconv.itoa x.tier) = some x.tier :=
    Strconv.atoi_eq_some_iff.mpr ⟨Strconv.numeral_itoa x.tier, fits_int64 htier⟩
  have hunread : ∀ s, Strconv.atoi s = none → Strconv.itoa x.tier ≠ s := by
    rintro s hs rfl
    rw [hread] at hs
    cases hs
  have htarget := @uuid_fillable pg hpg hslash (parsePattern (lit "GET /api/tiers/\x7btargetID\x7d"))
    rfl _ hid
  have hvs : Fillable (parsePattern (lit "DELETE /api/tiers/\x7btargetID\x7d/\x7btier\x7d")).segs
      [x.targetID, Strconv.itoa x.tier] :=
    ⟨rfl, List.forall_mem_cons.mpr ⟨htarget.nonempty _ List.mem_cons_self,
        List.forall_mem_singleton.mpr (hunread [] rfl)⟩,
      List.forall_mem_cons.mpr ⟨htarget.slashless _ List.mem_cons_self,
        List.forall_mem_singleton.mpr (hunread [slash] rfl)⟩⟩
  have hpass : ∀ c ∈ [(int4 x.tier, SqlError.outOfRange (lit "tier"))], c.1 = true :=
    List.forall_mem_singleton.mpr ((int4_iff _).mpr htier)
  obtain ⟨t', hexec, hgone⟩ : ∃ t', (Statement.deleteTier x.targetID x.tier).exec pg t =
      .ok (t', []) ∧ x ∉ t'.tiers := by
    refine ⟨{ t with tiers := t.tiers.filter fun y => !(y.targetID = x.targetID && y.tier = x.tier) },
      ?_, by simp⟩
    rw [Statement.exec, sqlDeleteTier, hid]
    dsimp only
    rw [guarded_of_pass hpass]
    rfl
  refine deletable_of_call (p := parsePattern
    (lit "DELETE /api/tiers/\x7btargetID\x7d/\x7btier\x7d")) (h := .deleteTier) (by decide) rfl hvs
    rfl (fun env hserver henv => ?_) fun _ => hgone
  change ∃ log, deleteTier env x.targetID (Strconv.itoa x.tier) t =
    ({ t' with auditLog := log }, noContent)
  rw [deleteTier, hread]
  exact ⟨_, finish_quiet henv (query_quiet henv _ (hserver ▸ hexec)) (by decide) _ _ _⟩

end Deletes

section Users

variable {pg : Server} {t t' : Tables}

/-- The users stay, whatever the statement; an upsert may change what they are like. -/
theorem exec_keeps_users {stmt : Statement} {id : Bytes} (h : stmt.exec pg t = .ok (t', id))
    {u : ProxyUser} (hu : u ∈ t.proxyUsers) : ∃ v ∈ t'.proxyUsers, v.id = u.id := by
  have hsame : t'.proxyUsers = t.proxyUsers → ∃ v ∈ t'.proxyUsers, v.id = u.id :=
    fun heq => ⟨u, heq ▸ hu, rfl⟩
  cases stmt with
  | upsertProfile newID v =>
    obtain ⟨rows, rfl, -⟩ := upsertProfile_ok h
    exact hsame rfl
  | deleteProfile id =>
    obtain ⟨u, -, rfl⟩ := deleteProfile_ok (map_ok_fst h)
    exact hsame rfl
  | upsertTarget newID v =>
    obtain ⟨ip, profile, -, -, -, hupserted⟩ := upsertTarget_ok h
    obtain ⟨rows, rfl, -⟩ := hupserted.applied
    exact hsame rfl
  | deleteTarget id =>
    obtain ⟨u, -, rfl⟩ := deleteTarget_ok (map_ok_fst h)
    exact hsame rfl
  | insertRule newID v =>
    obtain ⟨target, -, -, -, rfl⟩ := insertRule_ok h
    exact hsame rfl
  | updateRule v =>
    obtain ⟨u, target, -, -, -, rfl⟩ := updateRule_replaced h
    exact hsame rfl
  | deleteRule id =>
    obtain ⟨u, -, rfl⟩ := deleteRule_ok (map_ok_fst h)
    exact hsame rfl
  | upsertTier v =>
    obtain ⟨target, profile, -, -, -, -, rfl⟩ := upsertTier_ok (map_ok_fst h)
    exact hsame rfl
  | deleteTier targetID tier =>
    obtain ⟨u, -, -, rfl⟩ := deleteTier_ok (map_ok_fst h)
    exact hsame rfl
  | upsertUser newID v =>
    obtain ⟨-, rows, rfl, happlied⟩ := upsertUser_ok h
    exact happlied.ident_mem hu

theorem serve_keeps_users (call : Call) (env : Env) {u : ProxyUser} (hu : u ∈ t.proxyUsers) :
    ∃ v ∈ (call.serve env t).1.proxyUsers, v.id = u.id := by
  rcases serve_served env t call with ⟨-, hcommitted⟩ | ⟨-, hunchanged⟩
  · obtain ⟨stmt, changed, id, detail, -, hexec, -, hafter⟩ := hcommitted
    rw [hafter]
    exact exec_keeps_users hexec hu
  · rw [hunchanged]
    exact ⟨u, hu, rfl⟩

theorem request_keeps_users (b : Backend) (env : Env) (req : HttpRequest) {u : ProxyUser}
    (hu : u ∈ t.proxyUsers) : ∃ v ∈ (serveHTTP routes b env req t).1.proxyUsers, v.id = u.id := by
  cases hr : Visit.asked routes b ⟨env, req⟩ with
  | none =>
    have hsame : (serveHTTP routes b env req t).1 = t := serveHTTP_unasked hr
    rw [hsame]
    exact ⟨u, hu, rfl⟩
  | some r =>
    have hserved : serveHTTP routes b env req t = _ := serveHTTP_asked hr
    rw [hserved]
    exact serve_keeps_users r.call r.env hu

end Users

theorem pathValue_mem (p : Pattern) (found : List Bytes) (name : Bytes) :
    pathValue p found name = [] ∨ pathValue p found name ∈ found := by
  unfold pathValue
  dsimp only
  cases hfind : (List.zip _ found).find? fun e => e.1 = name with
  | none => exact .inl rfl
  | some e => exact .inr (List.of_mem_zip (List.mem_of_find?_eq_some hfind)).2

/-- What requests can do about the rows of a store. -/
structure Addressed (pg : Server) (b : Backend) (t : Tables) : Prop where
  profiles : ∀ p ∈ t.vpnProfiles, Fetched pg b t (profileToDTO b.view p)
  targets : ∀ h ∈ t.targetHosts, h.publicAlias ≠ [slash] →
    Fetched pg b t (targetToDTO (b.view.rd.target h))
  /-- No request asks for a target by the name of a slash. -/
  slash_unnamed : ∀ method path p found, dispatch routes method path = .handler p .getTarget found →
    pathValue p found (lit "alias") ≠ [slash]
  rows : ∀ item, item.Present t → (∃ u, item = .user u) ∨ Deletable pg b t item
  /-- No request of any kind removes a user. -/
  users : ∀ u ∈ t.proxyUsers, ∀ env req,
    ∃ v ∈ (serveHTTP routes b env req t).1.proxyUsers, v.id = u.id

/-- In every store that can be reached, each profile can be fetched by its id and each
target by its alias, unless that is a lone slash; each row can be deleted, unless it is
a user's, and those stay whatever is asked for. -/
theorem rows_addressed (pg : Server) (b : Backend) (hpg : UuidText pg)
    (hslash : pg.uuid [slash] = none) (requests : List Request)
    (hrequests : ∀ r ∈ requests, r.env.pg = pg ∧ pg.uuid r.env.newID = some r.env.newID) :
    Addressed pg b (final serve {} requests) := by
  obtain ⟨hschema, hstored⟩ := final_stored hpg hrequests schema_empty (stored_empty pg)
  refine ⟨fun p hp => profile_fetched hpg hslash hschema hstored hp,
    fun h hh hname => target_fetched hschema hstored hh hname, ?_, fun item hitem => ?_,
    fun u hu env req => request_keeps_users b env req hu⟩
  · intro method path p found hd halias
    have hvalues := (routes_orderly.fillable_of_dispatch hd).slashless
    rcases pathValue_mem p found (lit "alias") with hnone | hmem
    · rw [hnone] at halias
      cases halias
    · exact hvalues _ hmem halias
  · cases item with
    | profile p => exact .inr (profile_deletable hpg hslash hstored hitem)
    | target h => exact .inr (target_deletable hpg hslash hstored hitem)
    | rule r => exact .inr (rule_deletable hpg hslash hstored hitem)
    | tier x => exact .inr (tier_deletable hpg hslash hstored hitem)
    | user u => exact .inl ⟨u, rfl⟩

/-- The plain server, for which a slash is no id either. -/
def slashlessServer : Server :=
  { plainServer with uuid := fun s => if s ≠ [slash] then plainServer.uuid s else none }

theorem slashlessServer_text : UuidText slashlessServer where
  empty := rfl
  canonical := by
    intro s u h
    have hplain := (Option.ite_none_right_eq_some.mp h).2
    obtain rfl := Option.some.inj (Option.ite_none_right_eq_some.mp hplain).2
    exact h

def officeBackend : Backend where
  codec := bobCodec
  view := plainView
  created _ := 0
  order := ruleOrder fun _ => 0
  printable _ := true
  sort := Pac.stableSort

/-- The office and the branch, and a target that is called by a slash. -/
def slashRun : List Request :=
  (plainRun.map fun r => { r with env := { r.env with pg := slashlessServer } }) ++
    [⟨{ pg := slashlessServer, newID := lit "t2" },
      .putTarget (.ok { publicAlias := lit "/", privateIP := lit "10.8.0.5" })⟩]

theorem rows_addressed_office :
    (final serve {} slashRun).vpnProfiles.getLast? = some branchRow ∧
      (final serve {} slashRun).targetHosts.map TargetHost.publicAlias = [lit "crm", lit "/"] ∧
      Addressed slashlessServer officeBackend (final serve {} slashRun) := by
  refine ⟨rfl, rfl, rows_addressed slashlessServer officeBackend slashlessServer_text rfl slashRun ?_⟩
  intro r hr
  simp only [slashRun, plainRun, officeRun, List.cons_append, List.nil_append, List.map_cons,
    List.map_nil, List.mem_cons, List.not_mem_nil, or_false] at hr
  rcases hr with rfl | rfl | rfl | rfl | rfl <;> exact ⟨rfl, rfl⟩

end HelixProxy.Api
