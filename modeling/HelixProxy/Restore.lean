import HelixProxy.EntityDocuments

/-!
# Putting back what was read

A client that reads the rows of the control API and puts them back as it got
them changes nothing: every row that the handlers have stored passes their
checks and those of the schema again, finds itself by its key, and is stored as
it is. It is so for every store that can be reached, for any choice of rows in
any order, and with faults in between.

An address stored with a mask is read without it. Only targets with the address
of a single host are put back as they were.
-/

namespace HelixProxy.Api

open Store JsonText Transaction Upsert Utf8
set_option autoImplicit false

/-- A row of one of the tables. -/
inductive Item where
  | profile (p : VPNProfile)
  | target (h : TargetHost)
  | rule (r : ProxyRule)
  | tier (x : TargetTunnelTier)
  | user (u : ProxyUser)

namespace Item

def resource : Item → Resource
  | profile _ => .profile
  | target _ => .target
  | rule _ => .rule
  | tier _ => .tier
  | user _ => .user

/-- The object that the GET handlers write for the row. -/
def document (view : View) : Item → Bytes
  | profile p => writeJSON (profileToDTO view p)
  | target h => writeJSON (targetToDTO (view.rd.target h))
  | rule r => writeJSON (ruleToDTO r)
  | tier x => writeJSON (tierToDTO x)
  | user u => writeJSON (userToDTO u)

/-- The row is in the tables; the address of a target is that of a single host. -/
def In (pg : Server) (view : View) (t : Tables) : Item → Prop
  | profile p => p ∈ t.vpnProfiles
  | target h => h ∈ t.targetHosts ∧ pg.inet (view.rd.host h.privateIP) = some h.privateIP
  | rule r => r ∈ t.proxyRules
  | tier x => x ∈ t.tiers
  | user u => u ∈ t.proxyUsers

/-- The request that the document is decoded into. -/
def call (view : View) : Item → Call
  | profile p => .putProfile (.ok ⟨p.name, p.type.text, p.config, p.secretRef, p.enabled⟩)
  | target h => .putTarget (.ok ⟨h.publicAlias, view.rd.host h.privateIP, h.port, h.protocol,
      h.vpnProfileID, h.healthCheck, h.enabled⟩)
  | rule r => .putRule (.ok ⟨r.id, r.priority, r.matchHost, r.matchPath, r.targetHostID, r.enabled⟩)
  | tier x => .putTier (.ok ⟨x.targetID, x.vpnProfileID, x.tier⟩)
  | user u => .putUser (.ok ⟨u.username, u.secretRef, u.role, u.enabled⟩)

/-- The id of the row; a tier has none. -/
def id : Item → Bytes
  | profile p => p.id
  | target h => h.id
  | rule r => r.id
  | tier _ => []
  | user u => u.id

def answer : Item → Response
  | tier _ => ⟨200, [(lit "status", lit "ok")]⟩
  | item => writeID item.id

/-- A PUT with the document as its body. -/
def put (view : View) (codec : Codec) (env : Env) (item : Item) : Tables → Tables × Response :=
  (item.resource.endpoint codec).serve codec env (item.document view)

end Item

section Statements

variable {pg : Server} {t : Tables} (hschema : Schema t) (ht : Stored pg t)
include hschema ht

theorem upsertProfile_back
    (hnormal : ∀ given kept, pg.jsonb given = some kept → pg.jsonb kept = some kept)
    {p : VPNProfile} (hp : p ∈ t.vpnProfiles) (newID : Bytes) :
    sqlUpsertProfile pg newID { p with id := [] } t = .ok (t, p.id) := by
  have hstored := ht.profiles p hp
  have hkept : pg.config p.config = some p.config := by
    obtain ⟨given, kept, hjsonb, hconfig⟩ := hstored.config
    rw [hconfig, Server.config, hnormal given kept hjsonb, Option.map_some]
  have hrow : ProfileRow pg { p with id := [] } :=
    ⟨hstored.name.fits, by rw [hkept]; rfl, hstored.secretRef.fits⟩
  have hsame : (profileRow pg { p with id := [] }).put p.id = p := by
    simp only [profileRow, VPNProfile.stored, hstored.name.whole, hstored.secretRef.whole, hkept,
      Option.getD_some]
  have hupsert := @upsert_of_mem _ _ _ _ _ _ (profileRow pg { p with id := [] }) newID _
    hschema.keyed.profile_names p hp hsame
  rw [upsertProfile_eq, freshCheck_of_holds ⟨p, hp, decide_eq_true hstored.name.whole.symm⟩,
    List.append_nil, guarded_of_pass ((profileChecks_iff pg _).mpr hrow), hupsert]

theorem upsertTarget_back {h : TargetHost} (hh : h ∈ t.targetHosts) {ip : Bytes}
    (hip : pg.inet ip = some h.privateIP) (newID : Bytes) :
    sqlUpsertTarget pg newID { h with id := [], privateIP := ip } t = .ok (t, h.id) := by
  have hstored := ht.targets h hh
  have hport := hschema.port_chk h hh
  have hint : FitsInteger h.port :=
    ⟨le_trans (by decide) hport.1, lt_of_le_of_lt hport.2 (by decide)⟩
  have hrow : TargetRow pg { h with id := [], privateIP := ip } :=
    ⟨hstored.publicAlias.fits, by simp [hip], ⟨hint, hport⟩,
      ⟨hstored.protocol.fits, hschema.protocol_chk h hh⟩, by simp [hstored.vpnProfileID],
      hstored.healthCheck.fits⟩
  have hsame : (targetRow (({ h with id := [], privateIP := ip } : TargetHost).stored
      h.privateIP h.vpnProfileID)).put h.id = h := by
    simp only [targetRow, TargetHost.stored, hstored.publicAlias.whole, hstored.protocol.whole,
      hstored.healthCheck.whole]
  have hupsert := @upsert_of_mem _ _ _ _ _ _ (targetRow _) newID _
    hschema.keyed.target_aliases h hh hsame
  have hreference : (decide (h.vpnProfileID = []) || t.vpnProfiles.any (·.id = h.vpnProfileID)) =
      true := by
    simpa using hschema.keyed.target_profile h hh
  have hexec := @upsertTarget_eq pg { h with id := [], privateIP := ip } _ _ hip
    hstored.vpnProfileID newID t
  rw [hexec,
    freshCheck_of_holds ⟨h, hh, decide_eq_true hstored.publicAlias.whole.symm⟩,
    List.append_nil, guarded_of_pass, hupsert]
  exact List.forall_mem_append.mpr
    ⟨((targetChecks_iff pg _).mpr hrow).1, List.forall_mem_singleton.mpr hreference⟩

theorem updateRule_back {r : ProxyRule} (hr : r ∈ t.proxyRules) :
    sqlUpdateRule pg r t = .ok (t, r.id) := by
  have hstored := ht.rules r hr
  have hrow : RuleRow pg r :=
    ⟨hstored.priority, hstored.matchHost.fits, hstored.matchPath.fits,
      hschema.match_present_chk r hr, by simp [hstored.targetHostID]⟩
  have hchecks := List.forall_mem_append.mp ((ruleRow_iff pg hstored.targetHostID).mp hrow)
  have hfound : t.proxyRules.any (·.id = r.id) = true :=
    List.any_eq_true.mpr ⟨r, hr, decide_eq_true rfl⟩
  have hreference : ∀ c ∈ ruleTarget r.targetHostID t, c.1 = true := by
    simpa [ruleTarget] using hschema.rule_target r hr
  have hself : r.stored r.id r.targetHostID = r := by
    simp only [ProxyRule.stored, hstored.matchHost.whole, hstored.matchPath.whole]
  have hrows : (t.proxyRules.map fun x => if x.id = r.id then r.stored r.id r.targetHostID else x) =
      t.proxyRules := by
    refine (List.map_congr_left fun x hx => ?_).trans (List.map_id _)
    split
    · next hid =>
      rw [hself, List.inj_on_of_nodup_map hschema.rule_ids hx hr hid]
      rfl
    · rfl
  unfold sqlUpdateRule
  rw [hstored.id, hstored.targetHostID]
  dsimp only
  rw [guarded_of_pass, hrows]
  simp only [List.forall_mem_append]
  exact ⟨⟨⟨hchecks.1, List.forall_mem_singleton.mpr hfound⟩, hchecks.2⟩, hreference⟩

theorem upsertTier_back {x : TargetTunnelTier} (hx : x ∈ t.tiers) :
    sqlUpsertTier pg x t = .ok t := by
  have hstored := ht.tiers x hx
  have hslot : ∀ y ∈ t.tiers, tierSlot x.targetID x.tier y = true → y = x := by
    intro y hy hslot
    have heq : y.targetID = x.targetID ∧ y.tier = x.tier := by simpa [tierSlot] using hslot
    exact List.inj_on_of_nodup_map hschema.keyed.tier_slots hy hx (Prod.ext heq.1 heq.2)
  have hunique : (!t.tiers.any fun y => y.targetID = x.targetID &&
      y.vpnProfileID = x.vpnProfileID && !tierSlot x.targetID x.tier y) = true := by
    simp only [Bool.not_eq_true', List.any_eq_false, Bool.and_eq_true, decide_eq_true_eq,
      not_and, Bool.not_eq_false]
    rintro y hy ⟨htarget, hprofile⟩
    rw [List.inj_on_of_nodup_map hschema.keyed.tier_profiles hy hx (Prod.ext htarget hprofile)]
    simp [tierSlot]
  have hplace : place (tierSlot x.targetID x.tier) x t.tiers = t.tiers :=
    place_of_mem (List.any_eq_true.mpr ⟨x, hx, by simp [tierSlot]⟩) hslot
  rw [upsertTier_eq hstored.targetID hstored.vpnProfileID, hplace, guarded_of_pass]
  simp only [List.forall_mem_cons]
  exact ⟨(int4_iff _).mpr hstored.tier, decide_eq_true (hschema.tier_chk x hx),
    by simpa using hschema.keyed.tier_target x hx, by simpa using hschema.keyed.tier_profile x hx,
    hunique, by simp⟩

theorem upsertUser_back {u : ProxyUser} (hu : u ∈ t.proxyUsers) (newID : Bytes) :
    sqlUpsertUser newID { u with id := [] } t = .ok (t, u.id) := by
  have hstored := ht.users u hu
  have hrow : UserRow { u with id := [] } :=
    ⟨hstored.username.fits, ⟨hstored.secretRef.fits, hschema.secret_ref_chk u hu⟩,
      hstored.role.fits, hschema.role_chk u hu⟩
  have hsame : (userRow { u with id := [] }).put u.id = u := by
    simp only [userRow, hstored.username.whole, hstored.secretRef.whole, hstored.role.whole]
  have hupsert := @upsert_of_mem _ _ _ _ _ _ (userRow { u with id := [] }) newID _
    hschema.usernames u hu hsame
  rw [upsertUser_eq, freshCheck_of_holds ⟨u, hu, decide_eq_true hstored.username.whole.symm⟩,
    List.append_nil, guarded_of_pass ((userChecks_iff _).mpr hrow), hupsert]

end Statements

section Requests

variable {pg : Server} {codec : Codec} {view : View} {t : Tables} {item : Item}

/-- The decoder makes of a document the request with the values of the row. -/
theorem Item.put_eq (hpg : ServerText pg codec view) (hschema : Schema t) (ht : Stored pg t)
    (hitem : item.In pg view t) (env : Env) (u : Tables) :
    item.put view codec env u = (item.call view).serve env u := by
  cases item with
  | profile p => exact congrArg (putProfile env · u) (decodeJSON_profile hpg (ht.profiles p hitem))
  | target h =>
    exact congrArg (putTarget env · u)
      (decodeJSON_target hpg (ht.targets h hitem.1) (hschema.port_chk h hitem.1))
  | rule r => exact congrArg (putRule env · u) (decodeJSON_rule hpg (ht.rules r hitem))
  | tier x => exact congrArg (putTier env · u) (decodeJSON_tier hpg (ht.tiers x hitem))
  | user x => exact congrArg (putUser env · u) (decodeJSON_user hpg (ht.users x hitem))

theorem readType_text (type : VPNType) : readType type.text = some (some type) := by
  cases type <;> decide

theorem upsertTarget_put {h : TargetHost} (hport : 1 ≤ h.port) (hprotocol : h.protocol ≠ [])
    (env : Env) (ip : Bytes) :
    upsertTarget env ⟨h.publicAlias, ip, h.port, h.protocol, h.vpnProfileID, h.healthCheck,
      h.enabled⟩ = .upsertTarget env.newID { h with id := [], privateIP := ip } := by
  have hnonzero : ¬h.port = 0 := by omega
  simp only [upsertTarget, if_neg hnonzero, if_neg hprotocol]

theorem ne_nil_of_mem {values : List Bytes} (h : [] ∉ values) {s : Bytes} (hs : s ∈ values) :
    s ≠ [] := by
  rintro rfl
  exact h hs

/-- The statement of the request leaves the tables as they are and returns the row's id. -/
theorem Item.exec_back (hpg : ServerText pg codec view) (hschema : Schema t) (ht : Stored pg t)
    (hitem : item.In pg view t) (env : Env) :
    ∃ stmt, (item.call view).statement env = some stmt ∧ stmt.exec pg t = .ok (t, item.id) := by
  cases item with
  | profile p =>
    obtain ⟨_, _, -, hconfig⟩ := (ht.profiles p hitem).config
    have hstmt : ((Item.profile p).call view).statement env =
        some (.upsertProfile env.newID { p with id := [] }) := by
      simp only [Item.call, Call.statement, readType_text, Option.map_some, upsertProfile, hconfig,
        Option.getD_some]
    exact ⟨_, hstmt, upsertProfile_back hschema ht hpg.config_normal hitem env.newID⟩
  | target h =>
    have hprotocol := ne_nil_of_mem (by decide) (hschema.protocol_chk h hitem.1)
    have hport := (hschema.port_chk h hitem.1).1
    exact ⟨_, congrArg some (upsertTarget_put hport hprotocol env _),
      upsertTarget_back hschema ht hitem.1 hitem.2 env.newID⟩
  | rule r =>
    have hid : r.id ≠ [] := hpg.uuid.ne_nil (ht.rules r hitem).id
    exact ⟨_, congrArg some (if_pos hid), updateRule_back hschema ht hitem⟩
  | tier x =>
    refine ⟨.upsertTier x, rfl, ?_⟩
    rw [Statement.exec, upsertTier_back hschema ht hitem]
    rfl
  | user u =>
    have hrole := ne_nil_of_mem (by decide) (hschema.role_chk u hitem)
    have hstmt : ((Item.user u).call view).statement env =
        some (.upsertUser env.newID { u with id := [] }) := by
      simp only [Item.call, Call.statement, upsertUser, if_neg hrole]
    exact ⟨_, hstmt, upsertUser_back hschema ht hitem env.newID⟩

/-- Served or refused, the request leaves the tables as they are but for the audit log. -/
theorem Item.serve_same (hpg : ServerText pg codec view) (hschema : Schema t) (ht : Stored pg t)
    (hitem : item.In pg view t) {env : Env} (henv : env.pg = pg) :
    SameEntities t ((item.call view).serve env t).1 := by
  rcases serve_served env t (item.call view) with ⟨-, hcommitted⟩ | ⟨-, hunchanged⟩
  · obtain ⟨stmt, changed, id, detail, hstmt, hexec, -, hafter⟩ := hcommitted
    obtain ⟨stmt', hstmt', hback⟩ := Item.exec_back hpg hschema ht hitem env
    obtain rfl := Option.some.inj (hstmt.symm.trans hstmt')
    rw [henv, hback] at hexec
    obtain ⟨rfl, -⟩ := Prod.mk.inj (Except.ok.inj hexec)
    exact ⟨_, hafter⟩
  · rw [hunchanged]
    exact .refl t

/-- Nothing fails around the request, and the audit log takes the caller's name. -/
structure Env.Quiet (env : Env) : Prop where
  begun : env.beginFault = none
  entity : env.entityFault = none
  audit : env.auditFault = none
  committed : env.commitFault = none
  actor : FitsVarchar 255 (actorFromRequest env)

theorem finish_quiet {env : Env} (henv : env.Quiet)
    {call : Tables → Except StoreError (Tables × Bytes)} {t' : Tables} {id : Bytes}
    (hcall : call t = .ok (t', id)) {action : Bytes} (haction : FitsVarchar 100 action)
    (detail : Bytes → List (Bytes × DetailValue)) (onError : StoreError → Response)
    (onOK : Bytes → Response) : finish env call action detail onError onOK t =
      ({ t' with auditLog := t'.auditLog ++ [(auditEntry env action (detail id)).stored] },
        onOK id) := by
  have hchecks : ∀ c ∈ auditChecks (auditEntry env action (detail id)), c.1 = true :=
    List.forall_mem_append.mpr ⟨(text_iff _ _ _).mpr henv.actor, (text_iff _ _ _).mpr haction⟩
  have haudit : appendAudit env (auditEntry env action (detail id)) t' =
      .ok { t' with auditLog := t'.auditLog ++ [(auditEntry env action (detail id)).stored] } := by
    rw [appendAudit, henv.audit, sqlAppendAudit, guarded_of_pass hchecks]
  simp only [finish, mutateWithAudit, transact, henv.begun, henv.committed, Option.map_none, hcall,
    haudit]

theorem query_quiet {env : Env} (henv : env.Quiet) (label : Bytes) {stmt : Statement}
    {out : Tables × Bytes} (h : stmt.exec env.pg t = .ok out) :
    query env label stmt t = .ok out := by
  rw [query, henv.entity]
  dsimp only
  rw [h]

theorem queryRow_quiet {env : Env} (henv : env.Quiet) (label : Bytes) {stmt : Statement}
    {out : Tables × Bytes} (h : stmt.exec env.pg t = .ok out) :
    queryRow env label stmt t = .ok out := by
  rw [queryRow, henv.entity, h]
  exact query_quiet henv label h

/-- Where nothing fails the answer names the row. -/
theorem Item.serve_answer (hpg : ServerText pg codec view) (hschema : Schema t) (ht : Stored pg t)
    (hitem : item.In pg view t) {env : Env} (hserver : env.pg = pg) (henv : env.Quiet) :
    ((item.call view).serve env t).2 = item.answer := by
  obtain ⟨stmt, hstmt, hback⟩ := Item.exec_back hpg hschema ht hitem env
  rw [← hserver] at hback
  cases item with
  | profile p =>
    have hnamed := (ht.profiles p hitem).named
    obtain ⟨_, _, -, hconfig⟩ := (ht.profiles p hitem).config
    have hconfigured : p.config.wellFormed = true := by
      rw [hconfig]
      rfl
    simp only [Item.call, Call.statement, readType_text, Option.map_some, Option.some.injEq] at hstmt
    simp only [Item.call, Call.serve, Api.putProfile, if_neg hnamed, readType_text, hconfigured,
      Bool.not_true, Bool.false_eq_true, if_false, hstmt]
    rw [finish_quiet henv (query_quiet henv _ hback) (by decide)]
    rfl
  | target h =>
    have hnamed := (ht.targets h hitem.1).named
    have haddress : Strings.trimSpace (view.rd.host h.privateIP) ≠ [] := by
      intro hblank
      have hrefused := hitem.2
      rw [hpg.inet_blank _ hblank] at hrefused
      cases hrefused
    have hport := hschema.port_chk h hitem.1
    have hrange : ¬(h.port < 0 ∨ h.port > 65535) := by omega
    have hstmt := Option.some.inj hstmt
    simp only [Item.call, Call.serve, Api.putTarget, if_neg hnamed, if_neg haddress, if_neg hrange,
      hstmt]
    rw [finish_quiet henv (query_quiet henv _ hback) (by decide)]
    rfl
  | rule r =>
    have hmatch : ¬(r.matchHost = [] ∧ r.matchPath = []) := by
      rintro ⟨hhost, hpath⟩
      exact (hschema.match_present_chk r hitem).elim (· hhost) (· hpath)
    have hstmt := Option.some.inj hstmt
    simp only [Item.call, Call.serve, Api.putRule, if_neg hmatch, hstmt]
    rw [finish_quiet henv (queryRow_quiet henv _ hback) (by decide)]
    rfl
  | tier x =>
    have hids : ¬(x.targetID = [] ∨ x.vpnProfileID = []) := by
      rintro (htarget | hprofile)
      · exact hpg.uuid.ne_nil (ht.tiers x hitem).targetID htarget
      · exact hpg.uuid.ne_nil (ht.tiers x hitem).vpnProfileID hprofile
    have hnonneg := Int.not_lt.mpr (hschema.tier_chk x hitem)
    obtain rfl := Option.some.inj hstmt
    simp only [Item.call, Call.serve, Api.putTier, if_neg hids, if_neg hnonneg]
    rw [finish_quiet henv (query_quiet henv _ hback) (by decide)]
    rfl
  | user u =>
    have hnamed := (ht.users u hitem).named
    have hstmt := Option.some.inj hstmt
    simp only [Item.call, Call.serve, Api.putUser, if_neg hnamed, hstmt]
    rw [finish_quiet henv (query_quiet henv _ hback) (by decide)]
    rfl

/-- The tables a row is in may differ in the audit log. -/
theorem Item.In.withAudit (h : item.In pg view t) (entries : List AuditLogEntry) :
    item.In pg view { t with auditLog := entries } := by
  cases item <;> exact h

/-- One PUT after the other, each with its environment. -/
def putBack (view : View) (codec : Codec) (t : Tables) (x : Env × Item) : Tables × Response :=
  x.2.put view codec x.1 t

theorem putBack_same (hpg : ServerText pg codec view) (hschema : Schema t) (ht : Stored pg t)
    {puts : List (Env × Item)} (hputs : ∀ x ∈ puts, x.1.pg = pg ∧ x.2.In pg view t) :
    SameEntities t (final (putBack view codec) t puts) ∧
      ∀ x ∈ exchanges (putBack view codec) t puts, x.request.1.Quiet →
        x.answer = x.request.2.answer := by
  induction puts generalizing t with
  | nil => exact ⟨.refl t, by simp [exchanges]⟩
  | cons x rest ih =>
    obtain ⟨hserver, hitem⟩ := hputs x List.mem_cons_self
    have hput := Item.put_eq hpg hschema ht hitem x.1 t
    obtain ⟨entries, hafter⟩ := Item.serve_same hpg hschema ht hitem hserver
    have hstep : (putBack view codec t x).1 = { t with auditLog := entries } := by
      rw [putBack, hput, hafter]
    obtain ⟨hsame, hanswers⟩ := ih (hschema.withAudit entries) (ht.withAudit entries) fun y hy =>
      ⟨(hputs y (List.mem_cons_of_mem x hy)).1, (hputs y (List.mem_cons_of_mem x hy)).2.withAudit _⟩
    constructor
    · refine SameEntities.trans ⟨entries, rfl⟩ ?_
      rw [← hstep] at hsame ⊢
      exact hsame
    · rw [exchanges, hstep, List.forall_mem_cons]
      refine ⟨fun henv => ?_, hanswers⟩
      change (putBack view codec t x).2 = x.2.answer
      rw [putBack, hput]
      exact Item.serve_answer hpg hschema ht hitem hserver henv

end Requests

/-- Whatever the handlers were asked for before, rows of the store they left are put back
as they are read, any of them, in any order and as often as one likes: the tables stay
as they are but for the audit log, and each put that nothing fails around is answered
with success and the row's id. -/
theorem read_rows_put_back (pg : Server) (codec : Codec) (view : View)
    (hpg : ServerText pg codec view) (requests : List Request)
    (hrequests : ∀ r ∈ requests, r.env.pg = pg ∧ pg.uuid r.env.newID = some r.env.newID)
    (puts : List (Env × Item))
    (hputs : ∀ x ∈ puts, x.1.pg = pg ∧ x.2.In pg view (final serve {} requests)) :
    SameEntities (final serve {} requests)
        (final (putBack view codec) (final serve {} requests) puts) ∧
      ∀ x ∈ exchanges (putBack view codec) (final serve {} requests) puts, x.request.1.Quiet →
        x.answer = x.request.2.answer := by
  obtain ⟨hschema, hstored⟩ := final_stored hpg.uuid hrequests schema_empty (stored_empty pg)
  exact putBack_same hpg hschema hstored hputs

/-- Keys in the order of `jsonb`: the shorter first, and then by their bytes. -/
def keyLE (a b : Bytes) : Prop := a.length < b.length ∨ a.length = b.length ∧ a ≤ b

instance : DecidableRel keyLE := fun a b =>
  inferInstanceAs (Decidable (a.length < b.length ∨ a.length = b.length ∧ a ≤ b))

instance : Std.Total keyLE where
  total a b := by
    rcases Nat.lt_trichotomy a.length b.length with h | h | h
    · exact .inl (.inl h)
    · exact (List.le_total a b).imp (fun hle => .inr ⟨h, hle⟩) fun hle => .inr ⟨h.symm, hle⟩
    · exact .inr (.inl h)

instance : IsTrans Bytes keyLE where
  trans a b c := by
    rintro (hab | ⟨hab, hle⟩) (hbc | ⟨hbc, hle'⟩)
    · exact .inl (Nat.lt_trans hab hbc)
    · exact .inl (hbc ▸ hab)
    · exact .inl (hab ▸ hbc)
    · exact .inr ⟨hab.trans hbc, List.le_trans hle hle'⟩

/-- The members of an object of texts. -/
def textMembers : List (Bytes × Json) → Option (List (Bytes × Bytes))
  | [] => some []
  | (k, .string s) :: rest =>
    if storable k && storable s then (textMembers rest).map ((k, s) :: ·) else none
  | _ => none

def ofTexts (ms : List (Bytes × Bytes)) : Json := .object (ms.map fun m => (m.1, .string m.2))

/-- Ids and addresses are plain texts. A config is an object of texts, and of equal keys
the last is kept. -/
def plainServer : Server where
  uuid s := if s ≠ [] ∧ WellFormed s then some s else none
  inet s := if Strings.trimSpace s ≠ [] ∧ WellFormed s then some s else none
  jsonb
    | .object members => (textMembers members).map fun ms => ofTexts (LastWins.listing keyLE ms)
    | _ => none
  errorText _ := []

def configMembers : Json → List Member
  | .object members => ((textMembers members).getD []).map fun m => .string m.1 m.2
  | _ => []

def plainView : View where
  rd := ⟨fun _ _ => true, fun s => s⟩
  config j := (.object ((configMembers j).map Member.entry), writeObject (configMembers j))

theorem storable_of_textMembers {members : List (Bytes × Json)} {ms : List (Bytes × Bytes)}
    (h : textMembers members = some ms) : ∀ m ∈ ms, storable m.1 = true ∧ storable m.2 = true := by
  induction members generalizing ms with
  | nil =>
    cases h
    simp
  | cons m members ih =>
    unfold textMembers at h
    split at h
    · next heq => cases heq
    · next k s rest heq =>
      cases heq
      obtain ⟨hstorable, hrest⟩ := Option.ite_none_right_eq_some.mp h
      obtain ⟨ms', hms', rfl⟩ := Option.map_eq_some_iff.mp hrest
      exact List.forall_mem_cons.mpr ⟨Bool.and_eq_true_iff.mp hstorable, ih hms'⟩
    · cases h

theorem textMembers_ofTexts {ms : List (Bytes × Bytes)}
    (h : ∀ m ∈ ms, storable m.1 = true ∧ storable m.2 = true) :
    textMembers (ms.map fun m => (m.1, .string m.2)) = some ms := by
  induction ms with
  | nil => rfl
  | cons m ms ih =>
    rw [List.forall_mem_cons] at h
    rw [List.map_cons, textMembers, if_pos (Bool.and_eq_true_iff.mpr h.1), ih h.2]
    rfl

/-- What the column keeps is an object of texts in normal form. -/
theorem plainServer_kept {given kept : Json} (h : plainServer.jsonb given = some kept) :
    ∃ ms, (∀ m ∈ ms, storable m.1 = true ∧ storable m.2 = true) ∧
      LastWins.listing keyLE ms = ms ∧ kept = ofTexts ms := by
  unfold plainServer at h
  dsimp only at h
  split at h
  · obtain ⟨ms, hms, rfl⟩ := Option.map_eq_some_iff.mp h
    have hstorable := storable_of_textMembers hms
    exact ⟨_, fun m hm => hstorable m (LastWins.mem_of_mem_listing keyLE hm),
      LastWins.listing_listing keyLE ms, rfl⟩
  · cases h

theorem configMembers_ofTexts {ms : List (Bytes × Bytes)}
    (h : ∀ m ∈ ms, storable m.1 = true ∧ storable m.2 = true) :
    configMembers (ofTexts ms) = ms.map fun m => .string m.1 m.2 := by
  rw [ofTexts, configMembers, textMembers_ofTexts h, Option.getD_some]

theorem toMembers_texts (float : Bytes → Option Rat) {ms : List (Bytes × Bytes)}
    (h : ∀ m ∈ ms, storable m.1 = true ∧ storable m.2 = true) :
    toMembers float (ms.map fun m => (Member.string m.1 m.2).entry) =
      ms.map fun m => (m.1, .string m.2) := by
  induction ms with
  | nil => rfl
  | cons m ms ih =>
    rw [List.forall_mem_cons] at h
    have hunquote := unquote_escaped (storable_iff.mp h.1.2).1
    simp only [List.map_cons, Member.entry, Member.string, toMembers, toJson, hunquote]
    exact congrArg _ (ih h.2)

theorem plainServer_text : ServerText plainServer bobCodec plainView where
  uuid := by
    refine ⟨rfl, fun s u h => ?_⟩
    obtain ⟨hs, hu⟩ := Option.ite_none_right_eq_some.mp h
    cases hu
    exact if_pos hs
  uuid_text := by
    intro s u h
    obtain ⟨hs, hu⟩ := Option.ite_none_right_eq_some.mp h
    cases hu
    exact hs.2
  inet_text := by
    intro s ip h
    obtain ⟨hs, hip⟩ := Option.ite_none_right_eq_some.mp h
    cases hip
    exact hs.2
  inet_blank := fun s hs => if_neg fun h => h.1 hs
  config_normal := by
    intro given kept h
    obtain ⟨ms, hms, hnormal, rfl⟩ := plainServer_kept h
    change (textMembers (ms.map fun m => (m.1, .string m.2))).map _ = _
    rw [textMembers_ofTexts hms, Option.map_some, hnormal]
  config_text := by
    intro given kept h
    obtain ⟨ms, hms, -, rfl⟩ := plainServer_kept h
    have htext : ∀ m ∈ configMembers (ofTexts ms), m.Faithful 9998 := by
      rw [configMembers_ofTexts hms]
      intro m hm
      obtain ⟨x, hx, rfl⟩ := List.mem_map.mp hm
      obtain ⟨hkey, hvalue⟩ := hms x hx
      exact Member.faithful_string (storable_iff.mp hkey).1 (storable_iff.mp hvalue).1
    exact writeObject_mem htext
  config_value := by
    intro given kept h
    obtain ⟨ms, hms, -, rfl⟩ := plainServer_kept h
    change toJson _ (.object ((configMembers (ofTexts ms)).map Member.entry)) = _
    rw [configMembers_ofTexts hms, List.map_map, toJson]
    exact congrArg Json.object (toMembers_texts _ hms)

/-- A profile whose config gives its host twice. -/
def branch : ProfileDTO where
  name := lit "branch"
  config := .document (.object [(lit "peer_port", .string (lit "8443")),
    (lit "peer_host", .string (lit "old")), (lit "peer_host", .string (lit "gw"))])
  enabled := true

/-- The office again, on the plain server, and the branch. -/
def plainRun : List Request :=
  (officeRun.map fun r => { r with env := { r.env with pg := plainServer } }) ++
    [⟨{ pg := plainServer, newID := lit "p2" }, .putProfile (.ok branch)⟩]

def branchRow : VPNProfile where
  id := lit "p2"
  name := lit "branch"
  config := .document (ofTexts [(lit "peer_host", lit "gw"), (lit "peer_port", lit "8443")])

def officeTarget : TargetHost where
  id := lit "t1"
  publicAlias := lit "crm"
  privateIP := lit "10.8.0.4"
  vpnProfileID := lit "p1"

theorem plainRun_rows : branchRow ∈ (final serve {} plainRun).vpnProfiles ∧
    officeTarget ∈ (final serve {} plainRun).targetHosts := by
  have hprofiles : (final serve {} plainRun).vpnProfiles =
      [{ id := lit "p1", name := lit "office", config := .document (ofTexts []) }, branchRow] := rfl
  have htargets : (final serve {} plainRun).targetHosts = [officeTarget] := rfl
  rw [hprofiles, htargets]
  exact ⟨List.mem_cons_of_mem _ (List.mem_singleton_self _), List.mem_singleton_self _⟩

/-- The target is put back twice, and the first time the commit fails; the profile goes
back with the config that was kept of it. -/
theorem read_rows_put_back_office :
    SameEntities (final serve {} plainRun) (final (putBack plainView bobCodec)
      (final serve {} plainRun)
      [({ pg := plainServer, commitFault := some (lit "lost") }, .target officeTarget),
        ({ pg := plainServer }, .target officeTarget),
        ({ pg := plainServer }, .profile branchRow)]) := by
  refine (read_rows_put_back plainServer bobCodec plainView plainServer_text plainRun ?_ _ ?_).1
  · intro r hr
    simp only [plainRun, officeRun, List.map_cons, List.map_nil, List.cons_append, List.nil_append,
      List.mem_cons, List.not_mem_nil, or_false] at hr
    rcases hr with rfl | rfl | rfl | rfl <;> exact ⟨rfl, rfl⟩
  · obtain ⟨hprofile, htarget⟩ := plainRun_rows
    have hin : (Item.target officeTarget).In plainServer plainView (final serve {} plainRun) :=
      ⟨htarget, rfl⟩
    intro x hx
    simp only [List.mem_cons, List.not_mem_nil, or_false] at hx
    rcases hx with rfl | rfl | rfl
    · exact ⟨rfl, hin⟩
    · exact ⟨rfl, hin⟩
    · exact ⟨rfl, hprofile⟩

end HelixProxy.Api
